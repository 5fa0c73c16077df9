import ReactorServer.Db.Lease

/-!
# The books of the pools

What every worker holds (`Held`) is compared with the ledgers of the two pools, over whole runs.  The
books are right (`Sound`) whatever the calls come to: the ledgers cover what the workers hold, no
handle is in two places, and a context is opened only in the place of one that was freed.  The
ledger of MySQL is even exact.  That of Redis is exact as long as no exception is thrown while a
context is held (`Tidy`), since nobody gives the context back then.

With exact ledgers no worker has more than one handle of a pool, and a pool that has as many as
there are workers never lets one of them wait in vain (`pools_orderly`).

The Redis pool loses a connection with every attempt that fails, in the constructor and in
`discardBrokenConn`, and nothing ever makes up for it.  So the number of these attempts decides
whether an operation still gets a connection when nothing else is going on
(`obtains_iff_attempts_failed`).

Even where the pool has lost track of a context, no worker uses one that it does not have
(`used_by_holder`).
-/

set_option autoImplicit false

namespace ReactorServer

open Program Machine

/-! ## What a move does -/

namespace Pools

variable {s s' : Pools} {i : ℕ} {out : PoolOutcome} {w : ℕ → Held}

/-- What a step of worker `i` can do to the pools, and to what the worker holds. -/
inductive Change (s : Pools) (i : ℕ) (w : Held) : PoolOutcome → Pools → Held → Prop
  | keep {out : PoolOutcome} (hout : out ≠ .connected false) : Change s i w out s w
  /-- An exception: nobody gives the context back. -/
  | forget : Change s i w .throws s { w with redis := none }
  | redisTake {conn : ℕ} {p : HandlePool ℕ ℕ} (hnone : w.redis = none)
      (htake : s.redis.take i = some (conn, p)) :
      Change s i w .served { s with redis := p } { w with redis := some conn }
  | redisPut {conn : ℕ} (hconn : w.redis = some conn) :
      Change s i w .served { s with redis := s.redis.put i conn } { w with redis := none }
  | free {conn : ℕ} (hconn : w.redis = some conn) (howes : w.owes = false) :
      Change s i w .served
        { s with redis := s.redis.drop i conn, freed := conn :: s.freed, owing := i :: s.owing }
        { w with redis := none, owes := true }
  | connect (hnone : w.redis = none) (howes : w.owes = true) :
      Change s i w (.connected true)
        { s with redis := s.redis.lend i s.fresh, fresh := s.fresh + 1, owing := s.owing.erase i }
        { w with redis := some s.fresh, owes := false }
  | giveUp {out : PoolOutcome} (howes : w.owes = true)
      (hout : out = .connected false ∨ out = .throws) :
      Change s i w out { s with owing := s.owing.erase i } { w with owes := false }
  | mysqlTake {conn : ℕ} {p : HandlePool ℕ ℕ} (hnone : w.mysql = none)
      (htake : s.mysql.take i = some (conn, p)) :
      Change s i w .served { s with mysql := p } { w with mysql := some conn }
  | mysqlPut {conn : ℕ} (hconn : w.mysql = some conn) :
      Change s i w .served { s with mysql := s.mysql.put i conn } { w with mysql := none }

theorem exec_noexcept {o : PoolCall} {r : Option o.Res} (h : s.exec i o out = some (s', r))
    (ho : o.isNoexcept = true) : r ≠ none := by
  cases o with
  | redisFree conn =>
    cases out with
    | served => cases h; simp
    | _ => cases h
  | mysqlPush conn =>
    cases out with
    | served => cases h; simp
    | _ => cases h
  | send statusCode body =>
    cases out with
    | served => cases h; simp
    | _ => cases h
  | _ => cases ho

/-- A pop takes a context, or leaves everything as it is. -/
theorem exec_redisPop_change {r : Option PoolCall.redisPop.Res} {w : Held}
    (h : s.exec i .redisPop out = some (s', r)) (hnone : w.redis = none) :
    Change s i w out s' (w.after .redisPop r) := by
  have hsame : { w with redis := none } = w := by rw [← hnone]
  cases out with
  | served =>
    obtain ⟨⟨conn, p⟩, htake, e⟩ := Option.map_eq_some_iff.mp h
    cases e
    exact .redisTake hnone htake
  | timeout =>
    rw [exec] at h
    by_cases hidle : s.redis.idle = []
    · rw [if_pos hidle] at h
      cases h
      rw [show w.after .redisPop (some none) = w from hsame]
      exact .keep (by simp)
    · rw [if_neg hidle] at h
      cases h
  | throws =>
    cases h
    rw [show w.after .redisPop none = w from hsame]
    exact .keep (by simp)
  | _ => cases h

theorem exec_mysqlPop_change {r : Option PoolCall.mysqlPop.Res} {w : Held}
    (h : s.exec i .mysqlPop out = some (s', r)) (hnone : w.mysql = none) :
    Change s i w out s' (w.after .mysqlPop r) := by
  have hsame : { w with mysql := none } = w := by rw [← hnone]
  cases out with
  | served =>
    obtain ⟨⟨conn, p⟩, htake, e⟩ := Option.map_eq_some_iff.mp h
    cases e
    exact .mysqlTake hnone htake
  | timeout =>
    rw [exec] at h
    by_cases hidle : s.mysql.idle = []
    · rw [if_pos hidle] at h
      cases h
      rw [show w.after .mysqlPop (some none) = w from hsame]
      exact .keep (by simp)
    · rw [if_neg hidle] at h
      cases h
  | throws =>
    cases h
    rw [show w.after .mysqlPop none = w from hsame]
    exact .keep (by simp)
  | _ => cases h

/-- A context that is owed is opened, or given up. -/
theorem exec_createConn_change {r : Option PoolCall.createConn.Res} {w : Held}
    (h : s.exec i .createConn out = some (s', r)) (hnone : w.redis = none) (howes : w.owes = true) :
    Change s i w out s' (w.after .createConn r) := by
  have hsame : { w with redis := none, owes := false } = { w with owes := false } := by
    rw [← hnone]
  cases out with
  | connected ok =>
    cases ok with
    | true =>
      cases h
      exact .connect hnone howes
    | false =>
      cases h
      rw [show w.after .createConn (some none) = { w with owes := false } from hsame]
      exact .giveUp howes (.inl rfl)
  | throws =>
    cases h
    rw [show w.after .createConn none = { w with owes := false } from hsame]
    exact .giveUp howes (.inr rfl)
  | _ => cases h

/-- **What a step can do.** -/
theorem exec_change {o : PoolCall} {r : Option o.Res} {w : Held} (h : s.exec i o out = some (s', r))
    (hpre : poolSpec.pre w o) : Change s i w out s' (w.after o r) := by
  cases o with
  | redisPop => exact exec_redisPop_change h hpre
  | redisPush conn =>
    cases out with
    | served =>
      cases h
      exact .redisPut hpre
    | throws =>
      cases h
      exact .forget
    | _ => cases h
  | redisFree conn =>
    cases out with
    | served =>
      cases h
      exact .free hpre.1 hpre.2
    | _ => cases h
  | createConn => exact exec_createConn_change h hpre.1 hpre.2
  | redisCommand conn cmd =>
    cases out with
    | reply r =>
      cases h
      exact .keep (by simp)
    | throws =>
      cases cmd with
      | get key =>
        cases h
        exact .forget
      | _ => cases h
    | _ => cases cmd <;> cases h
  | mysqlPop => exact exec_mysqlPop_change h hpre
  | mysqlPush conn =>
    cases out with
    | served =>
      cases h
      exact .mysqlPut hpre
    | _ => cases h
  | mysqlQuery conn sql =>
    cases out with
    | result r =>
      cases h
      exact .keep (by simp)
    | throws =>
      cases h
      exact .keep (by simp)
    | _ => cases h
  | generateToken =>
    cases out with
    | token t =>
      cases h
      exact .keep (by simp)
    | throws =>
      cases h
      exact .keep (by simp)
    | _ => cases h
  | send statusCode body =>
    cases out with
    | served =>
      cases h
      exact .keep (by simp)
    | _ => cases h

/-- **What a move can be**: a worker begins something, or makes a step. -/
theorem fire_cases {m : PoolMove} (h : s.fire m = some s') :
    (∃ i e p, m = .start i e ∧ s.running[i]? = some p ∧ p.isDone = true ∧
      s' = { s with running := s.running.set i e.steps }) ∨
    ∃ i out o next s₁ r, m = .call i out ∧ s.running[i]? = some (.call o next) ∧
      s.exec i o out = some (s₁, r) ∧ s' = { s₁ with running := s.running.set i (next r) } := by
  cases m with
  | start i e =>
    rw [fire] at h
    cases hi : s.running[i]? with
    | none =>
      rw [hi] at h
      cases h
    | some p =>
      rw [hi] at h
      dsimp only at h
      by_cases hdone : p.isDone = true
      · rw [if_pos hdone] at h
        exact .inl ⟨i, e, p, rfl, hi, hdone, (Option.some.inj h).symm⟩
      · rw [if_neg hdone] at h
        cases h
  | call i out =>
    rw [fire] at h
    cases hi : s.running[i]? with
    | none =>
      rw [hi] at h
      cases h
    | some p =>
      rw [hi] at h
      cases p with
      | ret a => cases h
      | throw => cases h
      | call o next =>
        obtain ⟨⟨s₁, r⟩, hexec, e⟩ := Option.map_eq_some_iff.mp h
        exact .inr ⟨i, out, o, next, s₁, r, rfl, hi, hexec, e.symm⟩

/-! ## The books -/

/-- The MySQL pool: the handles are the ones it was made with, and the ledger says who has which. -/
structure MysqlBooks (p₀ p : HandlePool ℕ ℕ) (w : ℕ → Held) : Prop where
  perm : List.Perm p.handles p₀.handles
  covers : p.Covers fun i ↦ (w i).mysql
  exact : p.Exact fun i ↦ (w i).mysql

/-- The Redis pool: no context is in two places, a freed one is nowhere, and there is room for as
many as the workers have freed. -/
structure RedisBooks (s : Pools) (w : ℕ → Held) : Prop where
  nodup : s.redis.handles.Nodup
  covers : s.redis.Covers fun i ↦ (w i).redis
  lt_fresh : ∀ conn ∈ s.redis.handles, conn < s.fresh
  freed_lt : ∀ conn ∈ s.freed, conn < s.fresh
  freed_gone : ∀ conn ∈ s.freed, conn ∉ s.redis.handles
  mem_owing : ∀ i, i ∈ s.owing ↔ (w i).owes = true
  owing_nodup : s.owing.Nodup
  size : s.redis.handles.length + s.owing.length ≤ kRedisMaxConn

section Update

variable {x : Held}

theorem update_off {β : Type} (f : Held → β) {j : ℕ} (hj : j ≠ i) :
    f (Function.update w i x j) = f (w j) := by
  rw [Function.update_of_ne hj]

theorem update_on {β : Type} (f : Held → β) : f (Function.update w i x i) = f x := by
  rw [Function.update_self]

/-- What a step leaves alone is as it was, for everybody. -/
theorem update_same {β : Type} (f : Held → β) (h : f x = f (w i)) (j : ℕ) :
    f (Function.update w i x j) = f (w j) := by
  by_cases hj : j = i
  · subst hj
    rw [Function.update_self, h]
  · exact update_off f hj

end Update

theorem MysqlBooks.same {p₀ p : HandlePool ℕ ℕ} {w' : ℕ → Held} (h : MysqlBooks p₀ p w)
    (e : ∀ j, (w' j).mysql = (w j).mysql) : MysqlBooks p₀ p w' := by
  have e : (fun j ↦ (w' j).mysql) = fun j ↦ (w j).mysql := funext e
  exact ⟨h.perm, e ▸ h.covers, e ▸ h.exact⟩

/-- A change after which the pool has the same contexts. -/
theorem RedisBooks.of_perm {p : HandlePool ℕ ℕ} {w' : ℕ → Held} (h : s.RedisBooks w)
    (hp : List.Perm p.handles s.redis.handles) (hcovers : p.Covers fun j ↦ (w' j).redis)
    (howes : ∀ j, (w' j).owes = (w j).owes) : RedisBooks { s with redis := p } w' where
  nodup := hp.nodup_iff.mpr h.nodup
  covers := hcovers
  lt_fresh conn hconn := h.lt_fresh conn (hp.mem_iff.mp hconn)
  freed_lt := h.freed_lt
  freed_gone conn hconn hmem := h.freed_gone conn hconn (hp.mem_iff.mp hmem)
  mem_owing j := by
    rw [howes]
    exact h.mem_owing j
  owing_nodup := h.owing_nodup
  size := hp.length_eq ▸ h.size

/-- The books are not about what the workers still have to do. -/
theorem RedisBooks.running (h : s.RedisBooks w) (ps : List (PoolJob PUnit)) :
    RedisBooks { s with running := ps } w :=
  ⟨h.nodup, h.covers, h.lt_fresh, h.freed_lt, h.freed_gone, h.mem_owing, h.owing_nodup, h.size⟩

theorem RedisBooks.free {conn : ℕ} (h : s.RedisBooks w) (hconn : (w i).redis = some conn)
    (howes : (w i).owes = false) :
    RedisBooks { s with redis := s.redis.drop i conn, freed := conn :: s.freed, owing := i :: s.owing }
      (Function.update w i { w i with redis := none, owes := true }) := by
  have hmem : (i, conn) ∈ s.redis.leased := h.covers i conn hconn
  have hp := HandlePool.handles_drop hmem
  have hnodup : (conn :: (s.redis.drop i conn).handles).Nodup := hp.nodup_iff.mpr h.nodup
  have hsub : ∀ c ∈ (s.redis.drop i conn).handles, c ∈ s.redis.handles := fun c hc ↦
    hp.mem_iff.mp (List.mem_cons_of_mem _ hc)
  refine ⟨(List.nodup_cons.mp hnodup).2, ?_, fun c hc ↦ h.lt_fresh c (hsub c hc), ?_, ?_, ?_, ?_, ?_⟩
  · exact h.covers.drop (update_on Held.redis) fun j hj ↦ update_off Held.redis hj
  · intro c hc
    rcases List.mem_cons.mp hc with rfl | hc
    · exact h.lt_fresh c (hp.mem_iff.mp List.mem_cons_self)
    · exact h.freed_lt c hc
  · intro c hc
    rcases List.mem_cons.mp hc with rfl | hc
    · exact (List.nodup_cons.mp hnodup).1
    · exact fun hc' ↦ h.freed_gone c hc (hsub c hc')
  · intro j
    by_cases hj : j = i
    · subst hj
      rw [update_on Held.owes]
      exact ⟨fun _ ↦ rfl, fun _ ↦ List.mem_cons_self⟩
    · rw [update_off Held.owes hj, List.mem_cons, or_iff_right hj]
      exact h.mem_owing j
  · refine List.nodup_cons.mpr ⟨fun hi ↦ ?_, h.owing_nodup⟩
    rw [h.mem_owing, howes] at hi
    cases hi
  · have hlen := hp.length_eq
    have hsize := h.size
    rw [List.length_cons] at hlen
    show (s.redis.drop i conn).handles.length + (i :: s.owing).length ≤ _
    rw [List.length_cons]
    omega

/-- A worker that owes a context tries to open one, and owes nothing any more. -/
theorem RedisBooks.erase_owing (h : s.RedisBooks w) {x : Held} (hx : x.owes = false) (j : ℕ) :
    j ∈ s.owing.erase i ↔ (Function.update w i x j).owes = true := by
  rw [h.owing_nodup.mem_erase_iff]
  by_cases hj : j = i
  · subst hj
    rw [update_on Held.owes, hx]
    simp
  · rw [update_off Held.owes hj, h.mem_owing]
    exact and_iff_right hj

theorem RedisBooks.length_erase_owing (h : s.RedisBooks w) (howes : (w i).owes = true) :
    (s.owing.erase i).length + 1 = s.owing.length := by
  have hmem : i ∈ s.owing := (h.mem_owing i).mpr howes
  have hpos := List.length_pos_of_mem hmem
  rw [List.length_erase_of_mem hmem]
  omega

theorem RedisBooks.connect (h : s.RedisBooks w) (howes : (w i).owes = true) :
    RedisBooks
      { s with redis := s.redis.lend i s.fresh, fresh := s.fresh + 1, owing := s.owing.erase i }
      (Function.update w i { w i with redis := some s.fresh, owes := false }) := by
  have hp : List.Perm (s.redis.lend i s.fresh).handles (s.fresh :: s.redis.handles) :=
    HandlePool.handles_lend
  refine ⟨?_, ?_, ?_, ?_, ?_, h.erase_owing rfl, h.owing_nodup.erase i, ?_⟩
  · refine hp.nodup_iff.mpr (List.nodup_cons.mpr ⟨fun hmem ↦ ?_, h.nodup⟩)
    exact absurd (h.lt_fresh _ hmem) (lt_irrefl _)
  · exact h.covers.lend (update_on Held.redis) fun j hj ↦ update_off Held.redis hj
  · intro c hc
    rcases List.mem_cons.mp (hp.mem_iff.mp hc) with rfl | hc
    · exact Nat.lt_succ_self _
    · exact Nat.lt_succ_of_lt (h.lt_fresh c hc)
  · exact fun c hc ↦ Nat.lt_succ_of_lt (h.freed_lt c hc)
  · intro c hc hmem
    rcases List.mem_cons.mp (hp.mem_iff.mp hmem) with rfl | hmem
    · exact absurd (h.freed_lt _ hc) (lt_irrefl _)
    · exact h.freed_gone c hc hmem
  · have hlen := hp.length_eq
    have howing := h.length_erase_owing howes
    have hsize := h.size
    rw [List.length_cons] at hlen
    show (s.redis.lend i s.fresh).handles.length + (s.owing.erase i).length ≤ _
    omega

theorem RedisBooks.giveUp (h : s.RedisBooks w) (howes : (w i).owes = true) :
    RedisBooks { s with owing := s.owing.erase i } (Function.update w i { w i with owes := false }) where
  nodup := h.nodup
  covers := by
    rw [show (fun j ↦ (Function.update w i { w i with owes := false } j).redis) =
      fun j ↦ (w j).redis from funext fun j ↦ update_same Held.redis (by rfl) j]
    exact h.covers
  lt_fresh := h.lt_fresh
  freed_lt := h.freed_lt
  freed_gone := h.freed_gone
  mem_owing := h.erase_owing rfl
  owing_nodup := h.owing_nodup.erase i
  size := by
    have howing := h.length_erase_owing howes
    have hsize := h.size
    show s.redis.handles.length + (s.owing.erase i).length ≤ _
    omega

/-- The books of Redis are not about MySQL. -/
theorem RedisBooks.frame {p : HandlePool ℕ ℕ} {x : Held} (h : s.RedisBooks w)
    (hredis : x.redis = (w i).redis) (howes : x.owes = (w i).owes) :
    RedisBooks { s with mysql := p } (Function.update w i x) where
  nodup := h.nodup
  covers := by
    rw [show (fun j ↦ (Function.update w i x j).redis) = fun j ↦ (w j).redis from
      funext fun j ↦ update_same Held.redis hredis j]
    exact h.covers
  lt_fresh := h.lt_fresh
  freed_lt := h.freed_lt
  freed_gone := h.freed_gone
  mem_owing j := by
    rw [update_same Held.owes howes j]
    exact h.mem_owing j
  owing_nodup := h.owing_nodup
  size := h.size

/-- **A step keeps the books of Redis.** -/
theorem Change.redisBooks {x : Held} (hc : Change s i (w i) out s' x) (h : s.RedisBooks w) :
    s'.RedisBooks (Function.update w i x) := by
  have howes : ∀ {y : Held}, y.owes = (w i).owes → ∀ j, (Function.update w i y j).owes = (w j).owes :=
    fun hy j ↦ update_same Held.owes hy j
  cases hc with
  | keep hout =>
    rw [Function.update_eq_self]
    exact h
  | forget =>
    refine h.of_perm (p := s.redis) (List.Perm.refl _) ?_ (howes rfl)
    exact h.covers.forget (update_on Held.redis) fun j hj ↦ update_off Held.redis hj
  | redisTake hnone htake =>
    refine h.of_perm (HandlePool.handles_take htake) ?_ (howes rfl)
    exact h.covers.take htake (update_on Held.redis) fun j hj ↦ update_off Held.redis hj
  | redisPut hconn =>
    refine h.of_perm (HandlePool.handles_put (h.covers _ _ hconn)) ?_ (howes rfl)
    exact h.covers.put (update_on Held.redis) fun j hj ↦ update_off Held.redis hj
  | free hconn howes' => exact h.free hconn howes'
  | connect hnone howes' => exact h.connect howes'
  | giveUp howes' hout => exact h.giveUp howes'
  | mysqlTake hnone htake => exact h.frame rfl rfl
  | mysqlPut hconn => exact h.frame rfl rfl

/-- **A step keeps the books of MySQL.** -/
theorem Change.mysqlBooks {p₀ : HandlePool ℕ ℕ} (hp₀ : p₀.handles.Nodup) {x : Held}
    (hc : Change s i (w i) out s' x) (h : MysqlBooks p₀ s.mysql w) :
    MysqlBooks p₀ s'.mysql (Function.update w i x) := by
  have hnodup : s.mysql.handles.Nodup := h.perm.nodup_iff.mpr hp₀
  cases hc with
  | mysqlTake hnone htake =>
    refine ⟨(HandlePool.handles_take htake).trans h.perm, ?_, ?_⟩
    · exact h.covers.take htake (update_on Held.mysql) fun j hj ↦ update_off Held.mysql hj
    · exact h.exact.take htake hnone (update_on Held.mysql) fun j hj ↦ update_off Held.mysql hj
  | mysqlPut hconn =>
    refine ⟨(HandlePool.handles_put (h.covers _ _ hconn)).trans h.perm, ?_, ?_⟩
    · exact h.covers.put (update_on Held.mysql) fun j hj ↦ update_off Held.mysql hj
    · exact h.exact.put hnodup hconn fun j hj ↦ update_off Held.mysql hj
  | _ => exact h.same fun j ↦ update_same Held.mysql (by rfl) j

/-- The exception, if there is one, is not thrown while its worker has a Redis context. -/
def Tidy (s : Pools) : PoolMove → Prop
  | .call i .throws => ∀ x ∈ s.redis.leased, x.1 ≠ i
  | _ => True

instance (s : Pools) (m : PoolMove) : Decidable (s.Tidy m) := by
  unfold Tidy
  split <;> infer_instance

/-- **A tidy step keeps the ledger of Redis exact.** -/
theorem Change.redisExact {x : Held} (hc : Change s i (w i) out s' x) (h : s.RedisBooks w)
    (htidy : s.Tidy (.call i out)) (hexact : s.redis.Exact fun j ↦ (w j).redis) :
    s'.redis.Exact fun j ↦ (Function.update w i x j).redis := by
  have hsame : ∀ {y : Held}, y.redis = (w i).redis →
      s.redis.Exact fun j ↦ (Function.update w i y j).redis := by
    intro y hy
    rw [show (fun j ↦ (Function.update w i y j).redis) = fun j ↦ (w j).redis from
      funext fun j ↦ update_same Held.redis hy j]
    exact hexact
  cases hc with
  | forget =>
    refine hsame ?_
    cases hconn : (w i).redis with
    | none => rfl
    | some conn => exact absurd rfl (htidy _ (h.covers i conn hconn))
  | redisTake hnone htake =>
    exact hexact.take htake hnone (update_on Held.redis) fun j hj ↦ update_off Held.redis hj
  | redisPut hconn => exact hexact.put h.nodup hconn fun j hj ↦ update_off Held.redis hj
  | free hconn howes => exact hexact.drop h.nodup hconn fun j hj ↦ update_off Held.redis hj
  | connect hnone howes =>
    exact hexact.lend hnone (update_on Held.redis) fun j hj ↦ update_off Held.redis hj
  | keep hout => exact hsame rfl
  | giveUp howes hout => exact hsame rfl
  | mysqlTake hnone htake => exact hsame rfl
  | mysqlPut hconn => exact hsame rfl

/-! ## Runs -/

/-- The books are right, and every worker keeps to its specification. -/
structure Sound (s₀ s : Pools) (w : ℕ → Held) : Prop where
  length : s.running.length = s₀.running.length
  keeps : ∀ i p, s.running[i]? = some p → wp poolSpec p (fun w _ ↦ w = .nothing) (w i)
  outside : ∀ i, s.running.length ≤ i → w i = .nothing
  mysql : MysqlBooks s₀.mysql s.mysql w
  redis : s.RedisBooks w

theorem init_mysql_nodup (n : ℕ) (mysqlOk redisOk : ℕ → Bool) :
    (init n mysqlOk redisOk).mysql.handles.Nodup := by
  rw [HandlePool.handles, init, List.map_nil, List.append_nil]
  exact List.nodup_range.filter _

theorem init_sound (n : ℕ) (mysqlOk redisOk : ℕ → Bool) :
    Sound (init n mysqlOk redisOk) (init n mysqlOk redisOk) fun _ ↦ .nothing where
  length := rfl
  keeps i p hp := by
    obtain rfl : p = .ret ⟨⟩ := List.eq_of_mem_replicate (List.mem_of_getElem? hp)
    rfl
  outside _ _ := rfl
  mysql := ⟨.refl _, nofun, nofun⟩
  redis := by
    have hhandles : (init n mysqlOk redisOk).redis.handles = (List.range kRedisMaxConn).filter redisOk :=
      List.append_nil _
    refine ⟨?_, nofun, ?_, nofun, nofun, fun i ↦ ⟨nofun, nofun⟩, List.nodup_nil, ?_⟩
    · rw [hhandles]
      exact List.nodup_range.filter _
    · intro conn hconn
      rw [hhandles] at hconn
      exact List.mem_range.mp (List.mem_filter.mp hconn).1
    · rw [hhandles]
      have hle := List.length_filter_le redisOk (List.range kRedisMaxConn)
      rw [List.length_range] at hle
      exact hle

/-- A worker that is through has nothing. -/
theorem Sound.nothing_of_isDone {s₀ : Pools} (h : Sound s₀ s w) {p : PoolJob PUnit}
    (hp : s.running[i]? = some p) (hdone : p.isDone = true) : w i = .nothing := by
  have hwp := h.keeps i p hp
  cases p with
  | ret a => exact hwp
  | throw => exact hwp
  | call o next => cases hdone

/-- **A possible move keeps the books**: a start leaves them alone, a step makes a change. -/
theorem Sound.fire {s₀ : Pools} (hp₀ : s₀.mysql.handles.Nodup) {m : PoolMove} (h : Sound s₀ s w)
    (hm : s.fire m = some s') :
    ∃ w', Sound s₀ s' w' ∧ ((w' = w ∧ s'.redis = s.redis ∧ s'.owing = s.owing ∧ ∃ i e, m = .start i e) ∨
      ∃ i out s₁ x, m = .call i out ∧ Change s i (w i) out s₁ x ∧ s'.redis = s₁.redis ∧
        s'.owing = s₁.owing ∧ w' = Function.update w i x) := by
  rcases fire_cases hm with ⟨i, e, p, rfl, hi, hdone, rfl⟩ |
    ⟨i, out, o, next, s₁, r, rfl, hi, hexec, rfl⟩
  · refine ⟨w, ⟨?_, fun j q hq ↦ ?_, fun j hj ↦ ?_, h.mysql, h.redis.running _⟩,
      .inl ⟨rfl, rfl, rfl, i, e, rfl⟩⟩
    · rw [List.length_set]
      exact h.length
    · rw [List.getElem?_set] at hq
      by_cases hj : i = j
      · subst hj
        rw [if_pos rfl, if_pos (List.getElem?_eq_some_iff.mp hi).1] at hq
        obtain rfl := Option.some.inj hq
        rw [h.nothing_of_isDone hi hdone]
        exact e.steps_lease
      · rw [if_neg hj] at hq
        exact h.keeps j q hq
    · rw [List.length_set] at hj
      exact h.outside j hj
  · obtain ⟨hpre, hpost⟩ := h.keeps i _ hi
    have hchange := exec_change hexec hpre
    have hnext := hpost _ r ⟨rfl, exec_noexcept hexec⟩
    have hlt := (List.getElem?_eq_some_iff.mp hi).1
    refine ⟨Function.update w i ((w i).after o r), ⟨?_, fun j q hq ↦ ?_, fun j hj ↦ ?_,
      hchange.mysqlBooks hp₀ h.mysql, (hchange.redisBooks h.redis).running _⟩, .inr ⟨i, out, s₁, _, rfl, hchange, rfl, rfl, rfl⟩⟩
    · rw [List.length_set]
      exact h.length
    · rw [List.getElem?_set] at hq
      by_cases hj : i = j
      · subst hj
        rw [if_pos rfl, if_pos hlt] at hq
        obtain rfl := Option.some.inj hq
        rw [Function.update_self]
        exact hnext
      · rw [if_neg hj] at hq
        rw [Function.update_of_ne (Ne.symm hj)]
        exact h.keeps j q hq
    · rw [List.length_set] at hj
      rw [Function.update_of_ne (by omega)]
      exact h.outside j hj

/-- The books are right, and the ledger of Redis is exact. -/
def Exactly (s₀ s : Pools) (w : ℕ → Held) : Prop :=
  Sound s₀ s w ∧ s.redis.Exact fun i ↦ (w i).redis

theorem Exactly.fire {s₀ : Pools} (hp₀ : s₀.mysql.handles.Nodup) {m : PoolMove}
    (h : Exactly s₀ s w) (htidy : s.Tidy m) (hm : s.fire m = some s') :
    ∃ w', Exactly s₀ s' w' := by
  obtain ⟨w', hsound, ⟨rfl, hredis, -, -⟩ | ⟨i, out, s₁, x, rfl, hchange, hredis, -, rfl⟩⟩ :=
    h.1.fire hp₀ hm
  · exact ⟨w', hsound, hredis ▸ h.2⟩
  · exact ⟨_, hsound, hredis ▸ hchange.redisExact h.1.redis htidy h.2⟩

theorem Exactly.run {s₀ : Pools} (hp₀ : s₀.mysql.handles.Nodup) (h : Exactly s₀ s w)
    {ms : List PoolMove} (hms : Meets step Tidy s ms) : ∃ w', Exactly s₀ (s.run ms) w' := by
  refine hms.invariant (I := fun s ↦ ∃ w, Exactly s₀ s w) (fun s m ⟨w, hw⟩ htidy ↦ ?_) ⟨w, h⟩
  rw [step]
  cases hm : s.fire m with
  | none => exact ⟨w, hw⟩
  | some s' => exact hw.fire hp₀ htidy hm

theorem init_exactly (n : ℕ) (mysqlOk redisOk : ℕ → Bool) :
    Exactly (init n mysqlOk redisOk) (init n mysqlOk redisOk) fun _ ↦ .nothing :=
  ⟨init_sound n mysqlOk redisOk, nofun⟩

/-! ## Order in the pools -/

/-- The next step of a worker. -/
def nextCall (s : Pools) (i : ℕ) : Option PoolCall :=
  match s.running[i]? with
  | some (.call o _) => some o
  | _ => none

theorem nextCall_eq_some_iff {o : PoolCall} :
    s.nextCall i = some o ↔ ∃ next, s.running[i]? = some (.call o next) := by
  rw [nextCall]
  rcases s.running[i]? with _ | (_ | _ | ⟨o', next⟩)
  · simp
  · simp
  · simp
  · constructor
    · intro h
      obtain rfl := Option.some.inj h
      exact ⟨next, rfl⟩
    · rintro ⟨next', h⟩
      cases h
      rfl

/-- The pools are in order. -/
structure Orderly (s₀ s : Pools) : Prop where
  /-- The MySQL handles, idle and leased, are those that were created. -/
  mysql_perm : List.Perm s.mysql.handles s₀.mysql.handles
  mysql_nodup : s.mysql.handles.Nodup
  redis_nodup : s.redis.handles.Nodup
  redis_max : s.redis.handles.length ≤ kRedisMaxConn
  /-- A context that was freed is neither idle nor leased. -/
  redis_freed : ∀ conn ∈ s.freed, conn ∉ s.redis.handles
  /-- A worker holds at most one handle of each pool. -/
  mysql_one : (s.mysql.leased.map Prod.fst).Nodup
  redis_one : (s.redis.leased.map Prod.fst).Nodup
  /-- With a handle for every worker, `getConn` does not time out. -/
  mysql_served : kDbThreads ≤ s₀.mysql.handles.length →
    ∀ i, s.nextCall i = some .mysqlPop → s.fire (.call i .timeout) = none
  redis_served : kDbThreads ≤ s.redis.handles.length →
    ∀ i, s.nextCall i = some .redisPop → s.fire (.call i .timeout) = none

/-- An exact ledger names only workers, and not those that hold nothing. -/
theorem Sound.holders {s₀ : Pools} (h : Sound s₀ s w) {p : HandlePool ℕ ℕ} {f : Held → Option ℕ}
    (hf : f .nothing = none) (hexact : p.Exact fun i ↦ f (w i)) (hi : f (w i) = none) :
    (∀ j ∈ p.leased.map Prod.fst, j < s₀.running.length) ∧ i ∉ p.leased.map Prod.fst := by
  refine ⟨fun j hj ↦ ?_, fun hmem ↦ ?_⟩
  · obtain ⟨⟨j, conn⟩, hmem, rfl⟩ := List.mem_map.mp hj
    by_contra hlt
    have hheld : f (w j) = some conn := hexact j conn hmem
    rw [h.outside j (by rw [h.length]; exact Nat.le_of_not_lt hlt), hf] at hheld
    cases hheld
  · obtain ⟨⟨j, conn⟩, hmem', rfl⟩ := List.mem_map.mp hmem
    cases hi.symm.trans (hexact j conn hmem')

/-- A worker that asks for a Redis context is served if there is one, and times out only if there is
none. -/
theorem fire_redisPop {next : Option (Option ℕ) → PoolJob PUnit}
    (hrun : s.running[i]? = some (.call .redisPop next)) :
    ((s.fire (.call i .served)).isSome = true ↔ s.redis.idle ≠ []) ∧
      (s.fire (.call i .timeout) = none ↔ s.redis.idle ≠ []) := by
  rw [← not_iff_not (b := s.redis.idle ≠ []), not_not, Option.not_isSome_iff_eq_none]
  refine ⟨?_, ?_⟩
  · simp [fire, hrun, exec, HandlePool.take_eq_none_iff]
  · simp [fire, hrun, exec]

theorem fire_mysqlPop {next : Option (Option ℕ) → PoolJob PUnit}
    (hrun : s.running[i]? = some (.call .mysqlPop next)) :
    s.fire (.call i .timeout) = none ↔ s.mysql.idle ≠ [] := by
  simp [fire, hrun, exec]

theorem Exactly.orderly {s₀ : Pools} (hp₀ : s₀.mysql.handles.Nodup)
    (hthreads : s₀.running.length = kDbThreads) (h : Exactly s₀ s w) : Orderly s₀ s := by
  obtain ⟨hsound, hexact⟩ := h
  have hnodup : s.mysql.handles.Nodup := hsound.mysql.perm.nodup_iff.mpr hp₀
  have hmysql := hsound.mysql.exact.nodup_holders hnodup
  have hredis := hexact.nodup_holders hsound.redis.nodup
  refine ⟨hsound.mysql.perm, hnodup, hsound.redis.nodup, ?_, hsound.redis.freed_gone, hmysql, hredis,
    fun hn i hi ↦ ?_, fun hn i hi ↦ ?_⟩
  · have hsize := hsound.redis.size
    omega
  · obtain ⟨next, hrun⟩ := nextCall_eq_some_iff.mp hi
    have hlt : i < kDbThreads := by
      rw [← hthreads, ← hsound.length]
      exact (List.getElem?_eq_some_iff.mp hrun).1
    obtain ⟨hholders, hnone⟩ := hsound.holders (f := Held.mysql) rfl hsound.mysql.exact
      (hsound.keeps i _ hrun).1
    rw [hthreads] at hholders
    rw [← hsound.mysql.perm.length_eq] at hn
    exact (fire_mysqlPop hrun).mpr (HandlePool.idle_ne_nil hmysql hholders hlt hnone hn)
  · obtain ⟨next, hrun⟩ := nextCall_eq_some_iff.mp hi
    have hlt : i < kDbThreads := by
      rw [← hthreads, ← hsound.length]
      exact (List.getElem?_eq_some_iff.mp hrun).1
    obtain ⟨hholders, hnone⟩ := hsound.holders (f := Held.redis) rfl hexact (hsound.keeps i _ hrun).1
    rw [hthreads] at hholders
    exact (fire_redisPop hrun).2.mpr (HandlePool.idle_ne_nil hredis hholders hlt hnone hn)

/-- **The pools are in order**, as long as no exception is thrown while a Redis context is held. -/
theorem pools_orderly (mysqlOk redisOk : ℕ → Bool) {ms : List PoolMove}
    (hms : Meets step Tidy (init kDbThreads mysqlOk redisOk) ms) :
    Orderly (init kDbThreads mysqlOk redisOk) ((init kDbThreads mysqlOk redisOk).run ms) := by
  have hp₀ := init_mysql_nodup kDbThreads mysqlOk redisOk
  obtain ⟨w, hw⟩ := (init_exactly kDbThreads mysqlOk redisOk).run hp₀ hms
  exact hw.orderly hp₀ List.length_replicate

/-- A login whose query throws, while another worker discards a broken context. -/
def tidyMoves : List PoolMove :=
  [.start 0 (.task (.login 7 true (lit "bob") (lit "secret"))), .call 0 .served,
    .start 1 (.task (.logout 8 true (lit "t"))), .call 1 .served, .call 1 (.reply none),
    .call 0 (.reply (some .nil)), .call 1 .served, .call 0 .served, .call 0 .served,
    .call 0 .throws, .call 1 (.connected true), .call 0 .served, .call 0 .served, .call 1 .served]

theorem pools_orderly_tidyMoves :
    Orderly (init kDbThreads (fun _ ↦ true) fun _ ↦ true)
      ((init kDbThreads (fun _ ↦ true) fun _ ↦ true).run tidyMoves) :=
  pools_orderly (fun _ ↦ true) (fun _ ↦ true) (by decide +kernel)

/-- A request for a profile, in which the copy of the reply throws. -/
def leakMoves : List PoolMove :=
  [.start 0 (.task (.profile 7 true (lit "t"))), .call 0 .served, .call 0 .throws, .call 0 .served]

/-- Eight such requests leave the Redis pool empty, although all of its contexts are alive and nobody
uses them, and the ninth waits in vain. -/
theorem pools_not_orderly :
    ¬∀ (mysqlOk redisOk : ℕ → Bool) (ms : List PoolMove),
      Orderly (init kDbThreads mysqlOk redisOk) ((init kDbThreads mysqlOk redisOk).run ms) := by
  intro h
  have horderly := h (fun _ ↦ true) (fun _ ↦ true) ((List.replicate 8 leakMoves).flatten ++
    [.start 0 (.task (.profile 7 true (lit "t")))])
  have hserved := horderly.redis_served (by decide +kernel) 0 (by decide +kernel)
  exact absurd (congrArg Option.isSome hserved) (by decide +kernel)

/-! ## Failed attempts -/

/-- The move is possible, and throws nothing. -/
def Regular (s : Pools) (m : PoolMove) : Prop := (s.fire m).isSome = true ∧ ∀ i, m ≠ .call i .throws

instance (s : Pools) : ∀ m : PoolMove, Decidable (s.Regular m)
  | .start i e => decidable_of_iff ((s.fire (.start i e)).isSome = true) (by simp [Regular])
  | .call i out => decidable_of_iff ((s.fire (.call i out)).isSome = true ∧ out ≠ .throws)
      (by simp [Regular])

/-- No operation is in progress. -/
def Quiet (s : Pools) : Prop := ∀ p ∈ s.running, p.isDone = true

instance (s : Pools) : Decidable s.Quiet := inferInstanceAs (Decidable (∀ p ∈ s.running, _))

/-- Worker `i` begins an operation, and gets a connection for it. -/
def Obtains (s : Pools) (i : ℕ) (e : Errand) : Prop :=
  ((s.step (.start i e)).fire (.call i .served)).isSome = true ∧
    (s.step (.start i e)).fire (.call i .timeout) = none

/-- The connections that the Redis pool has, and those it is about to try and open. -/
def capacity (s : Pools) : ℕ := s.redis.handles.length + s.owing.length

end Pools

/-- A connection attempt fails. -/
def PoolMove.attemptFailed : PoolMove → Bool
  | .call _ (.connected false) => true
  | _ => false

namespace Pools

variable {s s' : Pools} {i : ℕ} {out : PoolOutcome} {w : ℕ → Held}

/-- **A step loses a connection exactly when an attempt to open one fails.** -/
theorem Change.capacity {x : Held} (hc : Change s i (w i) out s' x) (h : s.RedisBooks w)
    (hout : out ≠ .throws) :
    s'.capacity + [PoolMove.call i out].countP PoolMove.attemptFailed = s.capacity := by
  cases hc with
  | keep hout' =>
    cases out with
    | connected ok =>
      cases ok with
      | true => rfl
      | false => exact absurd rfl hout'
    | _ => rfl
  | forget => exact absurd rfl hout
  | redisTake hnone htake =>
    have hlen := (HandlePool.handles_take htake).length_eq
    simp [Pools.capacity, hlen, PoolMove.attemptFailed]
  | redisPut hconn =>
    have hlen := (HandlePool.handles_put (h.covers _ _ hconn)).length_eq
    simp [Pools.capacity, hlen, PoolMove.attemptFailed]
  | free hconn howes =>
    have hlen := (HandlePool.handles_drop (h.covers _ _ hconn)).length_eq
    rw [List.length_cons] at hlen
    simp [Pools.capacity, PoolMove.attemptFailed]
    omega
  | connect hnone howes =>
    have hlen := (HandlePool.handles_lend (p := s.redis) (i := i) (a := s.fresh)).length_eq
    have howing := h.length_erase_owing howes
    rw [List.length_cons] at hlen
    simp only [Pools.capacity, List.countP_singleton, PoolMove.attemptFailed]
    simp
    omega
  | giveUp howes hout' =>
    have howing := h.length_erase_owing howes
    rcases hout' with rfl | rfl
    · simp only [Pools.capacity, List.countP_singleton, PoolMove.attemptFailed]
      simp
      omega
    · exact absurd rfl hout
  | mysqlTake hnone htake => rfl
  | mysqlPut hconn => rfl

/-- **What is left of the pool** is what the failed attempts have left of it. -/
theorem Exactly.capacity_run {s₀ : Pools} (hp₀ : s₀.mysql.handles.Nodup) {ms : List PoolMove}
    (h : Exactly s₀ s w) (hms : Meets step Regular s ms) :
    (∃ w', Exactly s₀ (s.run ms) w') ∧
      (s.run ms).capacity + ms.countP PoolMove.attemptFailed = s.capacity := by
  induction ms generalizing s w with
  | nil => exact ⟨⟨w, h⟩, rfl⟩
  | cons m ms ih =>
    obtain ⟨⟨hsome, hthrow⟩, hms⟩ := hms
    obtain ⟨s', hm⟩ := Option.isSome_iff_exists.mp hsome
    have hstep : s.step m = s' := by rw [step, hm, Option.getD_some]
    have htidy : s.Tidy m := by
      unfold Tidy
      split
      · exact absurd rfl (hthrow _)
      · trivial
    obtain ⟨w', hw'⟩ := h.fire hp₀ htidy hm
    rw [hstep] at hms
    obtain ⟨hexactly, hcap⟩ := ih hw' hms
    have hrun : s.run (m :: ms) = s'.run ms := by
      rw [Pools.run, List.foldl_cons, hstep, Pools.run]
    rw [hrun]
    refine ⟨hexactly, ?_⟩
    have hone : s'.capacity + [m].countP PoolMove.attemptFailed = s.capacity := by
      obtain ⟨-, -, ⟨-, hredis, howing, i, e, rfl⟩ | ⟨i, out, s₁, x, rfl, hchange, hredis, howing, -⟩⟩ :=
        h.1.fire hp₀ hm
      · rw [Pools.capacity, Pools.capacity, hredis, howing]
        rfl
      · rw [Pools.capacity, hredis, howing]
        exact hchange.capacity h.1.redis fun hout ↦ hthrow i (hout ▸ rfl)
    have hcount : (m :: ms).countP PoolMove.attemptFailed =
        [m].countP PoolMove.attemptFailed + ms.countP PoolMove.attemptFailed := by
      rw [List.countP_cons, List.countP_singleton, Nat.add_comm]
    omega

/-- When nothing is going on, all connections are idle. -/
theorem Exactly.idle_of_quiet {s₀ : Pools} (h : Exactly s₀ s w) (hquiet : s.Quiet) :
    s.redis.idle.length = s.capacity := by
  have hnothing : ∀ j, w j = .nothing := by
    intro j
    rcases Nat.lt_or_ge j s.running.length with hj | hj
    · have hmem := List.getElem?_eq_getElem hj
      exact h.1.nothing_of_isDone hmem (hquiet _ (List.mem_of_getElem? hmem))
    · exact h.1.outside j hj
  have hleased : s.redis.leased = [] := by
    rw [List.eq_nil_iff_forall_not_mem]
    rintro ⟨j, conn⟩ hmem
    have hheld : (w j).redis = some conn := h.2 j conn hmem
    rw [hnothing j] at hheld
    cases hheld
  have howing : s.owing = [] := by
    rw [List.eq_nil_iff_forall_not_mem]
    intro j hmem
    rw [h.1.redis.mem_owing, hnothing j] at hmem
    cases hmem
  rw [Pools.capacity, HandlePool.length_handles, hleased, howing]
  rfl

/-- The operations of `RedisPool` begin with `getConn`. -/
theorem steps_of_isOperation {e : Errand} (he : e.isOperation = true) :
    ∃ next, e.steps = .call .redisPop next := by
  cases e with
  | task t => cases he
  | get key => exact ⟨_, rfl⟩
  | setex key ttl value => exact ⟨_, rfl⟩
  | del key => exact ⟨_, rfl⟩

theorem obtains_iff {e : Errand} (hquiet : s.Quiet) (hi : i < s.running.length)
    (he : e.isOperation = true) : s.Obtains i e ↔ s.redis.idle ≠ [] := by
  obtain ⟨next, hsteps⟩ := steps_of_isOperation he
  have hmem := List.getElem?_eq_getElem hi
  have hdone : s.running[i].isDone = true := hquiet _ (List.mem_of_getElem? hmem)
  have hstep : s.step (.start i e) = { s with running := s.running.set i e.steps } := by
    simp [step, fire, hmem, hdone]
  have hrun : (s.step (.start i e)).running[i]? = some (.call .redisPop next) := by
    rw [hstep, ← hsteps]
    exact List.getElem?_set_self hi
  have hidle : (s.step (.start i e)).redis.idle = s.redis.idle := by rw [hstep]
  obtain ⟨hserved, htimeout⟩ := fire_redisPop hrun
  rw [Obtains, hserved, htimeout, and_self, hidle]

theorem capacity_init (n : ℕ) (mysqlOk redisOk : ℕ → Bool) :
    (init n mysqlOk redisOk).capacity + (List.range kRedisMaxConn).countP (fun k ↦ !redisOk k) =
      kRedisMaxConn := by
  have hhandles : (init n mysqlOk redisOk).redis.handles = (List.range kRedisMaxConn).filter redisOk :=
    List.append_nil _
  have hsplit := List.length_eq_countP_add_countP redisOk (l := List.range kRedisMaxConn)
  have hcount : (List.range kRedisMaxConn).countP (fun k ↦ !redisOk k) =
      (List.range kRedisMaxConn).countP (fun k ↦ ¬redisOk k = true) := by
    refine List.countP_congr fun k _ ↦ ?_
    simp
  rw [List.length_range] at hsplit
  rw [Pools.capacity, hhandles, ← List.countP_eq_length_filter, hcount]
  exact hsplit.symm

/-- **When nothing else is going on, an operation gets a connection if and only if fewer than
`kRedisMaxConn` connection attempts have failed since the start**, those of the constructor
included. -/
theorem obtains_iff_attempts_failed (n : ℕ) (mysqlOk redisOk : ℕ → Bool) {ms : List PoolMove}
    (hms : Meets step Regular (init n mysqlOk redisOk) ms)
    (hquiet : ((init n mysqlOk redisOk).run ms).Quiet) {i : ℕ} (hi : i < n) {e : Errand}
    (he : e.isOperation = true) :
    ((init n mysqlOk redisOk).run ms).Obtains i e ↔
      (List.range kRedisMaxConn).countP (fun k ↦ !redisOk k) + ms.countP PoolMove.attemptFailed <
        kRedisMaxConn := by
  obtain ⟨⟨w, hw⟩, hcap⟩ := (init_exactly n mysqlOk redisOk).capacity_run
    (init_mysql_nodup n mysqlOk redisOk) hms
  have hinit := capacity_init n mysqlOk redisOk
  have hidle := hw.idle_of_quiet hquiet
  have hlen : i < ((init n mysqlOk redisOk).run ms).running.length := by
    rw [hw.1.length]
    exact (List.length_replicate (n := n)).symm ▸ hi
  rw [obtains_iff hquiet hlen he, ← List.length_pos_iff, hidle]
  omega

/-- A command that Redis does not reply to, and no connection to replace the broken one. -/
def outageMoves : List PoolMove :=
  [.start 0 (.get (lit "k")), .call 0 .served, .call 0 (.reply none), .call 0 .served,
    .call 0 (.connected false)]

theorem obtains_iff_attempts_failed_once :
    ((init 1 (fun _ ↦ true) fun _ ↦ true).run outageMoves).Obtains 0 (.del (lit "k")) ↔
      (List.range kRedisMaxConn).countP (fun _ ↦ !true) + outageMoves.countP PoolMove.attemptFailed <
        kRedisMaxConn :=
  obtains_iff_attempts_failed 1 (fun _ ↦ true) (fun _ ↦ true) (by decide +kernel)
    (by decide +kernel) (by decide) rfl

/-- An outage in which eight replacements fail: no operation ever gets a connection again. -/
theorem not_obtains_after_outage :
    ¬∀ (n : ℕ) (mysqlOk redisOk : ℕ → Bool) (ms : List PoolMove),
      Meets step Regular (init n mysqlOk redisOk) ms → ((init n mysqlOk redisOk).run ms).Quiet →
      ∀ i < n, ∀ e : Errand, e.isOperation = true → ((init n mysqlOk redisOk).run ms).Obtains i e := by
  intro h
  have hobtains := h 1 (fun _ ↦ true) (fun _ ↦ true) (List.replicate 8 outageMoves).flatten
    (by decide +kernel) (by decide +kernel) 0 Nat.zero_lt_one (.get (lit "k")) rfl
  exact absurd hobtains.1 (by decide +kernel)

/-! ## What is used is held -/

end Pools

/-- The Redis context that a step uses. -/
def PoolCall.redisConn : PoolCall → Option ℕ
  | .redisPush conn | .redisFree conn | .redisCommand conn _ => some conn
  | _ => none

/-- The MySQL handle that a step uses. -/
def PoolCall.mysqlConn : PoolCall → Option ℕ
  | .mysqlPush conn | .mysqlQuery conn _ => some conn
  | _ => none

namespace Pools

variable {s s' : Pools} {i : ℕ} {out : PoolOutcome} {w : ℕ → Held}

/-- Worker `i` has the handle, and nobody else has: it is not in the queue, and not with another
worker. -/
def HasAlone (p : HandlePool ℕ ℕ) (i conn : ℕ) : Prop :=
  (i, conn) ∈ p.leased ∧ conn ∉ p.idle ∧ ∀ j, (j, conn) ∈ p.leased → j = i

theorem hasAlone_of_mem {p : HandlePool ℕ ℕ} {conn : ℕ} (hnodup : p.handles.Nodup)
    (hmem : (i, conn) ∈ p.leased) : HasAlone p i conn := by
  obtain ⟨-, hleased, hdisjoint⟩ := List.nodup_append.mp hnodup
  refine ⟨hmem, fun hidle ↦ ?_, fun j hj ↦ ?_⟩
  · exact hdisjoint conn hidle conn (List.mem_map_of_mem hmem) rfl
  · have heq := List.inj_on_of_nodup_map hleased hj hmem rfl
    exact congrArg Prod.fst heq

theorem Sound.run {s₀ : Pools} (hp₀ : s₀.mysql.handles.Nodup) (h : Sound s₀ s w)
    (ms : List PoolMove) : ∃ w', Sound s₀ (s.run ms) w' := by
  have hmeets : Meets step (fun _ _ ↦ True) s ms := meets_of_forall (fun _ _ _ ↦ trivial) s
  refine hmeets.invariant (I := fun s ↦ ∃ w, Sound s₀ s w) (fun s m ⟨w, hw⟩ _ ↦ ?_) ⟨w, h⟩
  rw [step]
  rcases hm : s.fire m with _ | s'
  · exact ⟨w, hw⟩
  · obtain ⟨w', hw', -⟩ := hw.fire hp₀ hm
    exact ⟨w', hw'⟩

/-- **A connection is used only by the worker that has it**, whatever the calls come to: a command
goes to a context that has been neither given back nor freed, none is given back or freed twice, and
nobody else has it meanwhile. -/
theorem used_by_holder (n : ℕ) (mysqlOk redisOk : ℕ → Bool) (ms : List PoolMove) :
    let s := (init n mysqlOk redisOk).run ms
    ∀ i o, s.nextCall i = some o →
      (∀ conn, o.redisConn = some conn → HasAlone s.redis i conn ∧ conn ∉ s.freed) ∧
        ∀ conn, o.mysqlConn = some conn → HasAlone s.mysql i conn := by
  intro s i o ho
  have hp₀ := init_mysql_nodup n mysqlOk redisOk
  obtain ⟨w, hw⟩ := (init_sound n mysqlOk redisOk).run hp₀ ms
  obtain ⟨next, hrun⟩ := nextCall_eq_some_iff.mp ho
  have hpre := (hw.keeps i _ hrun).1
  refine ⟨fun conn hconn ↦ ?_, fun conn hconn ↦ ?_⟩
  · have hheld : (w i).redis = some conn := by
      cases o with
      | redisPush c => exact hconn ▸ hpre
      | redisFree c => exact hconn ▸ hpre.1
      | redisCommand c cmd => exact hconn ▸ hpre
      | _ => cases hconn
    have hmem := hw.redis.covers i conn hheld
    refine ⟨hasAlone_of_mem hw.redis.nodup hmem, fun hfreed ↦ ?_⟩
    exact hw.redis.freed_gone conn hfreed
      (List.mem_append_right _ (List.mem_map_of_mem hmem))
  · have hheld : (w i).mysql = some conn := by
      cases o with
      | mysqlPush c => exact hconn ▸ hpre
      | mysqlQuery c sql => exact hconn ▸ hpre
      | _ => cases hconn
    exact hasAlone_of_mem (hw.mysql.perm.nodup_iff.mpr hp₀) (hw.mysql.covers i conn hheld)

end Pools

end ReactorServer
