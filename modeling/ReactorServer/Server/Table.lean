import ReactorServer.Server.Cases

/-!
# The connection table and the open descriptors

`connections_` is keyed by descriptor, and nothing but the destruction of a connection closes its
socket.  So what stands in the table under a number is the owner of that number, and what is about to
be put there overwrites nothing (`Sys.Table`).  This holds in every interleaving.
-/

set_option autoImplicit false

namespace ReactorServer

namespace Sys

/-- The table is about the descriptors that are open, and these are those of the connections. -/
structure Table (s : Sys) : Prop where
  /-- An open descriptor is that of the connection it belongs to. -/
  sockets : ∀ n i, s.sockets n = some i → ∃ c, s.clients[i]? = some c ∧ c.conn.fd = n
  /-- An entry is the owner of its number. -/
  connections : ∀ n i, s.connections n = some i → s.sockets n = some i
  /-- So is a connection that is about to become one, and there is none yet. -/
  arriving : ∀ n i, s.arriving = some (n, i) → s.connections n = none ∧ s.sockets n = some i

/-- Every connection is still there, with its descriptor. -/
def SameFds (s s' : Sys) : Prop :=
  ∀ (i : ℕ) (c : Client), s.clients[i]? = some c →
    ∃ c', s'.clients[i]? = some c' ∧ c'.conn.fd = c.conn.fd

variable {s s' : Sys}

theorem sameFds_of_eq (h : s'.clients = s.clients) : SameFds s s' := by
  intro i c hc
  rw [h]
  exact ⟨c, hc, rfl⟩

theorem sameFds_set {i : ℕ} {c c' : Client} (hc : s.clients[i]? = some c)
    (hfd : c'.conn.fd = c.conn.fd) (h : s'.clients = s.clients.set i c') : SameFds s s' := by
  intro i' c₀ hc₀
  rw [h, List.getElem?_set]
  by_cases hi : i = i'
  · subst hi
    rw [if_pos rfl, if_pos (List.getElem?_eq_some_iff.mp hc).1]
    rw [Option.some.inj (hc₀.symm.trans hc)]
    exact ⟨c', rfl, hfd⟩
  · rw [if_neg hi]
    exact ⟨c₀, hc₀, rfl⟩

theorem sameFds_modify {j : ℕ} {a : ℕ × ℕ}
    (h : s'.clients = s.clients.modify j (·.addReply a)) : SameFds s s' := by
  intro i c hc
  rw [h, List.getElem?_modify, hc]
  by_cases hj : j = i
  · exact ⟨c.addReply a, congrArg some (if_pos hj), rfl⟩
  · exact ⟨c, congrArg some (if_neg hj), rfl⟩

theorem SameFds.trans {s'' : Sys} (h : SameFds s s') (h' : SameFds s' s'') : SameFds s s'' := by
  intro i c hc
  obtain ⟨c', hc', e⟩ := h i c hc
  obtain ⟨c'', hc'', e'⟩ := h' i c' hc'
  exact ⟨c'', hc'', e'.trans e⟩

theorem Table.frame (h : s.Table) (hclients : SameFds s s') (hsockets : s'.sockets = s.sockets)
    (hconnections : s'.connections = s.connections) (harriving : s'.arriving = s.arriving) :
    s'.Table where
  sockets n i hi := by
    rw [hsockets] at hi
    obtain ⟨c, hc, hfd⟩ := h.sockets n i hi
    obtain ⟨c', hc', e⟩ := hclients i c hc
    exact ⟨c', hc', e.trans hfd⟩
  connections n i hi := by
    rw [hconnections] at hi
    rw [hsockets]
    exact h.connections n i hi
  arriving n i hi := by
    rw [harriving] at hi
    rw [hconnections, hsockets]
    exact h.arriving n i hi

theorem table_start : start.Table where
  sockets n i hi := absurd hi (by simp [start])
  connections n i hi := absurd hi (by simp [start])
  arriving n i hi := absurd hi (by simp [start])

theorem Table.deleteConnection (h : s.Table) (fd : ℕ) : (s.deleteConnection fd).Table := by
  rw [Sys.deleteConnection]
  by_cases hfd : (s.connections fd).isSome
  · rw [if_pos hfd]
    refine ⟨fun n i hi ↦ ?_, fun n i hi ↦ ?_, fun n i hi ↦ ?_⟩
    · by_cases hn : n = fd
      · subst hn
        simp at hi
      · simp only [Function.update_of_ne hn] at hi
        exact h.sockets n i hi
    · by_cases hn : n = fd
      · subst hn
        simp at hi
      · simp only [Function.update_of_ne hn] at hi ⊢
        exact h.connections n i hi
    · -- what is about to be put in the table is not there yet, so it is not deleted
      obtain ⟨hnone, hopen⟩ := h.arriving n i hi
      have hn : n ≠ fd := by
        rintro rfl
        simp [hnone] at hfd
      simp only [Function.update_of_ne hn]
      exact ⟨hnone, hopen⟩
  · rw [if_neg hfd]
    exact h

theorem Table.accept (h : s.Table) (file : Option Bytes) (fd now : ℕ) :
    (s.step file (.accept fd now)).Table := by
  rw [step]
  by_cases hfree : s.sockets fd = none ∧ s.arriving = none
  · rw [if_pos hfree]
    -- a number that is free is not in the table either
    have hnone : s.connections fd = none := by
      cases hc : s.connections fd with
      | none => rfl
      | some i => exact absurd (h.connections fd i hc) (by simp [hfree.1])
    refine ⟨fun n i hi ↦ ?_, fun n i hi ↦ ?_, fun n i hi ↦ ?_⟩
    · by_cases hn : n = fd
      · subst hn
        obtain rfl : s.clients.length = i := by simpa using hi
        exact ⟨.accepted n now, by simp, rfl⟩
      · simp only [Function.update_of_ne hn] at hi
        obtain ⟨c, hc, hfd⟩ := h.sockets n i hi
        exact ⟨c, by rw [List.getElem?_append_left (List.getElem?_eq_some_iff.mp hc).1, hc], hfd⟩
    · have hn : n ≠ fd := by
        rintro rfl
        exact absurd hi (by simp [hnone])
      simp only [Function.update_of_ne hn]
      exact h.connections n i hi
    · obtain ⟨rfl, rfl⟩ : fd = n ∧ s.clients.length = i := by simpa using hi
      exact ⟨hnone, by simp⟩
  · rw [if_neg hfree]
    exact h

theorem Table.insert (h : s.Table) (file : Option Bytes) : (s.step file .insert).Table := by
  rw [step]
  cases harr : s.arriving with
  | none => exact h
  | some p =>
    obtain ⟨hnone, hopen⟩ := h.arriving p.1 p.2 harr
    have hsame : (if (s.connections p.1).isSome then Function.update s.sockets p.1 none
        else s.sockets) = s.sockets := if_neg (by simp [hnone])
    dsimp only
    rw [hsame]
    refine ⟨h.sockets, fun n i hi ↦ ?_, fun n i hi ↦ absurd hi (by simp)⟩
    by_cases hn : n = p.1
    · subst hn
      obtain rfl : p.2 = i := by simpa using hi
      exact hopen
    · simp only [Function.update_of_ne hn] at hi
      exact h.connections n i hi

theorem note_conn (c : Client) (a : Act) : (c.note a).conn = c.conn := by
  cases a <;> rfl

/-! ## Who is in the table -/

/-- The connection that calls `deleteConnection` in this move, if one does. -/
def invokes (s : Sys) : Label → List ℕ
  | .act i => if s.nextAct i = some .delete then [i] else []
  | _ => []

theorem invokes_delete {i : ℕ} {c : Client} {todo : List Act} (hc : s.clients[i]? = some c)
    (htodo : c.todo = .delete :: todo) : s.invokes (.act i) = [i] :=
  if_pos (nextAct_eq hc htodo)

/-- Nothing has happened to the table, nor to the descriptors. -/
structure SameTable (s s' : Sys) : Prop where
  connections : s'.connections = s.connections
  sockets : s'.sockets = s.sockets
  arriving : s'.arriving = s.arriving
  clients : s'.clients.length = s.clients.length

/-- **What a move can do to the table.** -/
theorem table_cases (file : Option Bytes) (s : Sys) (l : Label) :
    -- a connection is accepted
    (∃ fd now, l = .accept fd now ∧ s.sockets fd = none ∧ s.arriving = none ∧
      s.step file l = { s with clients := s.clients ++ [.accepted fd now]
                               sockets := Function.update s.sockets fd (some s.clients.length)
                               arriving := some (fd, s.clients.length) }) ∨
    -- it is put in the table
    (∃ fd i, l = .insert ∧ s.arriving = some (fd, i) ∧
      s.step file l = { s with sockets := if (s.connections fd).isSome then
                                  Function.update s.sockets fd none else s.sockets
                               connections := Function.update s.connections fd (some i)
                               arriving := none }) ∨
    -- one is deleted
    (∃ i c todo, l = .act i ∧ s.clients[i]? = some c ∧ c.todo = .delete :: todo ∧
      s.step file l =
        deleteConnection { s with clients := s.clients.set i { c with todo := todo } } c.conn.fd) ∨
    -- something else
    (SameTable s (s.step file l) ∧ SameFds s (s.step file l) ∧ s.invokes l = []) := by
  cases l with
  | accept fd now =>
    rw [step]
    by_cases hfree : s.sockets fd = none ∧ s.arriving = none
    · rw [if_pos hfree]
      exact .inl ⟨fd, now, rfl, hfree.1, hfree.2, rfl⟩
    · rw [if_neg hfree]
      exact .inr (.inr (.inr ⟨⟨rfl, rfl, rfl, rfl⟩, sameFds_of_eq rfl, rfl⟩))
  | insert =>
    rw [step]
    cases harr : s.arriving with
    | none => exact .inr (.inr (.inr ⟨⟨rfl, rfl, rfl, rfl⟩, sameFds_of_eq rfl, rfl⟩))
    | some p => exact .inr (.inl ⟨p.1, p.2, rfl, rfl, rfl⟩)
  | event i e =>
    refine .inr (.inr (.inr ?_))
    rcases step_event_cases file s i e with heq | ⟨c, hc, -, -, heq⟩
    · rw [heq]
      exact ⟨⟨rfl, rfl, rfl, rfl⟩, sameFds_of_eq rfl, rfl⟩
    · rw [heq]
      exact ⟨⟨rfl, rfl, rfl, List.length_set⟩, sameFds_set hc (handle_fd file c.conn e) rfl, rfl⟩
  | act i =>
    refine .inr (.inr ?_)
    rcases step_act_cases file s i with ⟨hnone, e⟩ | ⟨c, a, todo, hc, htodo, e⟩
    · rw [e]
      exact .inr ⟨⟨rfl, rfl, rfl, rfl⟩, sameFds_of_eq rfl, by simp [invokes, hnone]⟩
    · rw [e]
      have hnext := nextAct_eq hc htodo
      have hfd : ({ c.note a with todo := todo } : Client).conn.fd = c.conn.fd :=
        congrArg Conn.fd (note_conn c a)
      cases a with
      | delete => exact .inl ⟨i, c, todo, rfl, hc, htodo, rfl⟩
      | complete =>
        refine .inr ?_
        rw [effect, logReply]
        split
        · exact ⟨⟨rfl, rfl, rfl, List.length_set⟩, sameFds_set hc hfd rfl, by simp [invokes, hnext]⟩
        · exact ⟨⟨rfl, rfl, rfl, (List.length_modify ..).trans List.length_set⟩,
            (sameFds_set hc hfd rfl).trans (sameFds_modify rfl), by simp [invokes, hnext]⟩
      | _ =>
        exact .inr ⟨⟨rfl, rfl, rfl, List.length_set⟩, sameFds_set hc hfd rfl,
          by simp [invokes, hnext]⟩
  | take w =>
    refine .inr (.inr (.inr ?_))
    rcases step_take_cases file s w with heq | ⟨t, queue, -, -, heq⟩
    · rw [heq]
      exact ⟨⟨rfl, rfl, rfl, rfl⟩, sameFds_of_eq rfl, rfl⟩
    · rw [heq]
      exact ⟨⟨rfl, rfl, rfl, rfl⟩, sameFds_of_eq rfl, rfl⟩
  | call w out =>
    refine .inr (.inr (.inr ?_))
    rcases step_call_cases file s w out with heq | ⟨k, o, next, store, r, -, -, -, -, heq⟩
    · rw [heq]
      exact ⟨⟨rfl, rfl, rfl, rfl⟩, sameFds_of_eq rfl, rfl⟩
    · rw [heq]
      exact ⟨⟨rfl, rfl, rfl, rfl⟩, sameFds_of_eq rfl, rfl⟩
  | write w r =>
    refine .inr (.inr (.inr ?_))
    rcases step_write_cases file s w r with heq | ⟨k, statusCode, body, next, -, -, hcases⟩
    · rw [heq]
      exact ⟨⟨rfl, rfl, rfl, rfl⟩, sameFds_of_eq rfl, rfl⟩
    rcases hcases with ⟨-, heq⟩ | ⟨j, n, data, -, -, -, ⟨-, heq⟩ | heq⟩
    · rw [heq]
      exact ⟨⟨rfl, rfl, rfl, rfl⟩, sameFds_of_eq rfl, rfl⟩
    · rw [heq]
      exact ⟨⟨rfl, rfl, rfl, rfl⟩, sameFds_of_eq rfl, rfl⟩
    · rw [heq]
      exact ⟨⟨rfl, rfl, rfl, List.length_modify ..⟩, sameFds_modify rfl, rfl⟩
  | expire key => exact .inr (.inr (.inr ⟨⟨rfl, rfl, rfl, rfl⟩, sameFds_of_eq rfl, rfl⟩))

/-- **The table is sound** after any move. -/
theorem Table.step (h : s.Table) (file : Option Bytes) (l : Label) : (s.step file l).Table := by
  rcases table_cases file s l with ⟨fd, now, rfl, -⟩ | ⟨fd, i, rfl, -⟩ |
    ⟨i, c, todo, rfl, hc, -, e⟩ | ⟨hsame, hfds, -⟩
  · exact h.accept file fd now
  · exact h.insert file
  · rw [e]
    have hset : SameFds s { s with clients := s.clients.set i { c with todo := todo } } :=
      sameFds_set hc (show ({ c with todo := todo } : Client).conn.fd = c.conn.fd from rfl) rfl
    exact (h.frame hset rfl rfl rfl).deleteConnection c.conn.fd
  · exact h.frame hfds hsame.sockets hsame.connections hsame.arriving

end Sys

end ReactorServer
