import ReactorServer.Db.Pool

/-!
# Registering at the same time

`/register` looks whether there is such a user and then inserts one, in two statements.  Two tasks
that look before either has inserted both try, and the `UNIQUE` constraint refuses the second; it
answers 500 (`register_lost_race`), not the 409 that a task gets which looks later.

So everything turns on whether a `SELECT` can come between the `SELECT` and the `INSERT` of another
task.  When none does, exactly one task answers 200, the users table has its password, and all others
answer 409 (`register_race`).

The text of a task is short and the only thing the tasks share is one row, so here a worker is simply
followed from point to point: `Point` is where it is, `Point.next` where it goes from there, and
`Stands` says that the rest of its program is the rest from that point on.
-/

set_option autoImplicit false

namespace ReactorServer

open Program Machine

/-! ## From point to point -/

/-- Where a registration is: before it has a connection, before its `SELECT`, before its `INSERT`,
before its answer, before it gives the connection back, and through. -/
inductive Point where
  | entering
  | selecting
  | inserting
  | answering (won : Bool)
  | leaving (won : Bool)
  | through (won : Bool)
  deriving DecidableEq, Repr

namespace Point

/-- Where it goes from there, and what becomes of the row of the user. -/
def next (password : Bytes) (row : Option Bytes) : Point → Point × Option Bytes
  | entering => (selecting, row)
  | selecting => (if row.isSome then answering false else inserting, row)
  | inserting => (answering true, some password)
  | answering won => (leaving won, row)
  | leaving won => (through won, row)
  | through won => (through won, row)

/-- It has won, or lost. -/
def verdict : Point → Option Bool
  | answering won | leaving won | through won => some won
  | _ => none

/-- It has found no row, and nothing has come between. -/
def Ahead (pt : Point) : Prop := pt = inserting ∨ pt.verdict = some true

/-- The answer to a registration. -/
def answer : Bool → Call
  | true => .send 200 (messageJson "register success")
  | false => .send 409 (errorJson "user already exists")

/-- The response that is sent from there. -/
def reply (i : ℕ) : Point → List Reply
  | answering won => (answer won).reply i
  | _ => []

/-- A verdict is final. -/
theorem verdict_next {pt : Point} {won : Bool} (h : pt.verdict = some won) (password : Bytes)
    (row : Option Bytes) : (pt.next password row).1.verdict = some won := by
  cases pt with
  | entering => exact absurd h (by simp [verdict])
  | selecting => exact absurd h (by simp [verdict])
  | inserting => exact absurd h (by simp [verdict])
  | _ => exact h

theorem answering_of_mem_reply {pt : Point} {i : ℕ} {r : Reply} (h : r ∈ pt.reply i) :
    ∃ won, pt = answering won ∧ r ∈ (answer won).reply i := by
  cases pt with
  | answering won => exact ⟨won, rfl, h⟩
  | _ => exact absurd h List.not_mem_nil

end Point

/-! ## The race -/

/-- The race so far, for workers that are at these points, a row of the user, and what each worker
registers.  At most one has found no row.  There is none as long as it has not inserted one, and then
it is its own; and there is one when somebody has found one. -/
structure Fair (submits : ℕ → Bytes → Prop) (point : ℕ → Point) (row : Option Bytes) : Prop where
  alone : ∀ i j, (point i).Ahead → (point j).Ahead → i = j
  absent : ∀ i, point i = .inserting → row = none
  owner : ∀ password, row = some password → ∃ i, (point i).verdict = some true ∧ submits i password
  present : ∀ i b, (point i).verdict = some b → row ≠ none

namespace Fair

variable {submits : ℕ → Bytes → Prop} {point : ℕ → Point} {row : Option Bytes} {i : ℕ}

theorem mono (h : Fair submits point row) {submits' : ℕ → Bytes → Prop}
    (hle : ∀ i password, submits i password → submits' i password) : Fair submits' point row := by
  refine ⟨h.alone, h.absent, fun password hrow ↦ ?_, h.present⟩
  obtain ⟨i, hi, hsubmits⟩ := h.owner password hrow
  exact ⟨i, hi, hle i password hsubmits⟩

/-- A worker that goes on to a point with the same verdict, and not about to insert. -/
theorem same (h : Fair submits point row) {pt : Point} (hverdict : pt.verdict = (point i).verdict)
    (hpt : pt ≠ .inserting) : Fair submits (Function.update point i pt) row := by
  have hverdicts : ∀ j, (Function.update point i pt j).verdict = (point j).verdict := by
    intro j
    by_cases hj : j = i
    · rw [hj, Function.update_self, hverdict]
    · rw [Function.update_of_ne hj]
  have hinserting : ∀ j, Function.update point i pt j = .inserting → point j = .inserting := by
    intro j hj
    by_cases hji : j = i
    · rw [hji, Function.update_self] at hj
      exact absurd hj hpt
    · rwa [Function.update_of_ne hji] at hj
  have hahead : ∀ j, (Function.update point i pt j).Ahead → (point j).Ahead :=
    fun j ↦ Or.imp (hinserting j) fun hj ↦ (hverdicts j).symm.trans hj
  refine ⟨fun j₁ j₂ h₁ h₂ ↦ h.alone j₁ j₂ (hahead j₁ h₁) (hahead j₂ h₂),
    fun j hj ↦ h.absent j (hinserting j hj), fun password hrow ↦ ?_, fun j b hj ↦ ?_⟩
  · obtain ⟨j, hj, hsubmits⟩ := h.owner password hrow
    exact ⟨j, (hverdicts j).trans hj, hsubmits⟩
  · exact h.present j b ((hverdicts j).symm.trans hj)

/-- A worker that finds no row, with nobody else about to insert one. -/
theorem findsNone (h : Fair submits point none) (hnone : ∀ j, point j ≠ .inserting) :
    Fair submits (Function.update point i .inserting) none := by
  have hself : ∀ j, (Function.update point i .inserting j).Ahead → j = i := by
    intro j hj
    by_contra hji
    rw [Function.update_of_ne hji] at hj
    rcases hj with hj | hj
    · exact hnone j hj
    · exact h.present j true hj rfl
  refine ⟨fun j₁ j₂ h₁ h₂ ↦ (hself j₁ h₁).trans (hself j₂ h₂).symm, fun _ _ ↦ rfl,
    fun password hrow ↦ absurd hrow (by simp), fun j b hj ↦ ?_⟩
  by_cases hji : j = i
  · rw [hji, Function.update_self] at hj
    exact absurd hj (by simp [Point.verdict])
  · rw [Function.update_of_ne hji] at hj
    exact h.present j b hj

/-- A worker that finds a row. -/
theorem findsRow {password : Bytes} (h : Fair submits point (some password))
    (hpt : (point i).verdict = none) :
    Fair submits (Function.update point i (.answering false)) (some password) := by
  have hahead : ∀ j, (Function.update point i (.answering false) j).Ahead → (point j).Ahead := by
    intro j hj
    by_cases hji : j = i
    · rw [hji, Function.update_self] at hj
      exact absurd hj (by simp [Point.Ahead, Point.verdict])
    · rwa [Function.update_of_ne hji] at hj
  refine ⟨fun j₁ j₂ h₁ h₂ ↦ h.alone j₁ j₂ (hahead j₁ h₁) (hahead j₂ h₂), fun j hj ↦ ?_,
    fun password' hrow ↦ ?_, fun _ _ _ ↦ by simp⟩
  · by_cases hji : j = i
    · rw [hji, Function.update_self] at hj
      exact absurd hj (by simp)
    · rw [Function.update_of_ne hji] at hj
      exact h.absent j hj
  · obtain ⟨j, hj, hsubmits⟩ := h.owner password' hrow
    have hji : j ≠ i := by
      rintro rfl
      exact absurd (hpt.symm.trans hj) (by simp)
    exact ⟨j, by rwa [Function.update_of_ne hji], hsubmits⟩

/-- The worker that is about to insert a row does. -/
theorem inserts {password : Bytes} (h : Fair submits point row) (hpt : point i = .inserting)
    (hsubmits : submits i password) :
    Fair submits (Function.update point i (.answering true)) (some password) := by
  have hself : ∀ j, (Function.update point i (.answering true) j).Ahead → j = i := by
    intro j hj
    by_contra hji
    rw [Function.update_of_ne hji] at hj
    exact hji (h.alone j i hj (.inl hpt))
  refine ⟨fun j₁ j₂ h₁ h₂ ↦ (hself j₁ h₁).trans (hself j₂ h₂).symm, fun j hj ↦ ?_,
    fun password' hrow ↦ ?_, fun _ _ _ ↦ by simp⟩
  · rw [hself j (.inl hj), Function.update_self] at hj
    exact absurd hj (by simp)
  · obtain rfl := Option.some.inj hrow
    exact ⟨i, by rw [Function.update_self]; rfl, hsubmits⟩

/-- **One step of a worker**, if nobody looks while another is about to insert. -/
theorem next (h : Fair submits point row) {password : Bytes} (hsubmits : submits i password)
    (hturn : point i = .selecting → ∀ j, point j ≠ .inserting) :
    Fair submits (Function.update point i ((point i).next password row).1)
      ((point i).next password row).2 := by
  cases hpt : point i with
  | entering => exact h.same (by rw [hpt]; rfl) (by simp [Point.next])
  | answering won => exact h.same (by rw [hpt]; rfl) (by simp [Point.next])
  | leaving won => exact h.same (by rw [hpt]; rfl) (by simp [Point.next])
  | through won => exact h.same (by rw [hpt]; rfl) (by simp [Point.next])
  | selecting =>
    cases row with
    | none => exact h.findsNone (hturn hpt)
    | some password' => exact h.findsRow (by rw [hpt]; rfl)
  | inserting => exact h.inserts hpt hsubmits

end Fair

/-- The rest of a program is that of a registration from this point on, when all goes well. -/
inductive Stands (username password : Bytes) : Point → Job PUnit → Prop where
  | through (won : Bool) : Stands username password (.through won) (.ret ⟨⟩)
  | leaving {won : Bool} {conn : ℕ} {next : Option PUnit → Job PUnit}
      (h : Stands username password (.through won) (next (some ⟨⟩))) :
      Stands username password (.leaving won) (.call (.mysqlRelease conn) next)
  | success {next : Option PUnit → Job PUnit}
      (h : Stands username password (.leaving true) (next (some ⟨⟩))) :
      Stands username password (.answering true)
        (.call (.send 200 (messageJson "register success")) next)
  | exists {next : Option PUnit → Job PUnit}
      (h : Stands username password (.leaving false) (next (some ⟨⟩))) :
      Stands username password (.answering false)
        (.call (.send 409 (errorJson "user already exists")) next)
  | inserting {conn : ℕ} {sql : Bytes} {next : Option QueryResult → Job PUnit}
      (hsql : parseSql sql = some (.insert username password))
      (h : ∀ rows, Stands username password (.answering true) (next (some (.done rows)))) :
      Stands username password .inserting (.call (.mysqlQuery conn sql) next)
  | selecting {conn : ℕ} {sql : Bytes} {next : Option QueryResult → Job PUnit}
      (hsql : parseSql sql = some (.selectExists username))
      (hnone : Stands username password .inserting (next (some (.done (some [])))))
      (hsome : ∀ row rows,
        Stands username password (.answering false) (next (some (.done (some (row :: rows)))))) :
      Stands username password .selecting (.call (.mysqlQuery conn sql) next)
  | entering {next : Option (Option ℕ) → Job PUnit}
      (h : ∀ conn, Stands username password .selecting (next (some (some conn)))) :
      Stands username password .entering (.call .mysqlGetConn next)

/-- **The closure of `/register` starts at the beginning.** -/
theorem register_stands (fd : ℕ) (keepAlive : Bool) (username password : Bytes) :
    Stands username password .entering (Task.register fd keepAlive username password).work := by
  refine .entering fun conn ↦ .selecting (parseSql_cstr_selectExists username) ?_ fun row rows ↦ ?_
  · refine .inserting (parseSql_cstr_insert username password) fun rows ↦ ?_
    exact .success (.leaving (.through true))
  · exact .exists (.leaving (.through false))

section Step

variable {username password : Bytes} {pt : Point} {s store : Store} {out : Outcome}

/-- A statement that comes out fine is executed. -/
theorem exec_query_fine {conn : ℕ} {sql : Bytes} {r : Option QueryResult}
    (hexec : s.exec (.mysqlQuery conn sql) out = some (store, r)) (hfine : out.isFine = true) :
    store = (s.mysqlQuery sql).1 ∧ r = some (s.mysqlQuery sql).2 := by
  cases out with
  | served =>
    obtain ⟨hstore, hr⟩ := Prod.ext_iff.mp (Option.some.inj hexec)
    exact ⟨hstore.symm, hr.symm⟩
  | handle n => exact absurd hexec (by simp [Store.exec])
  | token t => exact absurd hexec (by simp [Store.exec])
  | _ => cases hfine

/-- **One call of a registration**, when it comes out fine, and nobody has come between. -/
theorem Stands.step {o : Call} {next : Option o.Res → Job PUnit} {r : Option o.Res}
    (h : Stands username password pt (.call o next))
    (hexec : s.exec o out = some (store, r)) (hfine : out.isFine = true)
    (halone : pt = .inserting → s.users username = none) (i : ℕ) :
    Stands username password (pt.next password (s.users username)).1 (next r) ∧
      store.users username = (pt.next password (s.users username)).2 ∧ o.reply i = pt.reply i := by
  cases h with
  | leaving h | success h | «exists» h =>
    cases out <;> cases hexec
    exact ⟨h, rfl, rfl⟩
  | inserting hsql h =>
    obtain ⟨rfl, rfl⟩ := exec_query_fine hexec hfine
    rw [Store.mysqlQuery_of_parse hsql, Store.mysqlRun, halone rfl]
    exact ⟨h none, Function.update_self .., rfl⟩
  | selecting hsql hnone hsome =>
    obtain ⟨rfl, rfl⟩ := exec_query_fine hexec hfine
    rw [Store.mysqlQuery_of_parse hsql, Store.mysqlRun]
    cases hrow : s.users username with
    | none => exact ⟨hnone, rfl, rfl⟩
    | some row => exact ⟨hsome _ _, rfl, rfl⟩
  | entering h =>
    cases out with
    | handle n =>
      cases hexec
      exact ⟨h n, rfl, rfl⟩
    | served => cases hexec
    | token t => cases hexec
    | _ => cases hfine

end Step

/-! ## Runs -/

/-- The move is the start of a registration of this user, or a call that comes out fine. -/
def Move.Registers (username : Bytes) : Move → Prop
  | .start (.register _ _ name _) => name = username
  | .start _ => False
  | .call _ out => out.isFine = true
  | .expire _ => True

instance (username : Bytes) : ∀ m : Move, Decidable (m.Registers username)
  | .start (.register _ _ name _) => inferInstanceAs (Decidable (name = username))
  | .start (.login ..) => inferInstanceAs (Decidable False)
  | .start (.profile ..) => inferInstanceAs (Decidable False)
  | .start (.logout ..) => inferInstanceAs (Decidable False)
  | .call _ out => inferInstanceAs (Decidable (out.isFine = true))
  | .expire _ => inferInstanceAs (Decidable True)

/-- The call is the `SELECT` of a registration. -/
def Call.isSelect : Call → Bool
  | .mysqlQuery _ sql =>
    match parseSql sql with
    | some (.selectExists _) => true
    | _ => false
  | _ => false

/-- The call is the `INSERT` of a registration. -/
def Call.isInsert : Call → Bool
  | .mysqlQuery _ sql =>
    match parseSql sql with
    | some (.insert _ _) => true
    | _ => false
  | _ => false

theorem Stands.select {username password : Bytes} {q : Job PUnit}
    (h : Stands username password .selecting q) : ∃ o next, q = .call o next ∧ o.isSelect = true := by
  cases h with
  | selecting hsql hnone hsome => exact ⟨_, _, rfl, by simp [Call.isSelect, hsql]⟩

theorem Stands.insert {username password : Bytes} {q : Job PUnit}
    (h : Stands username password .inserting q) : ∃ o next, q = .call o next ∧ o.isInsert = true := by
  cases h with
  | inserting hsql h => exact ⟨_, _, rfl, by simp [Call.isInsert, hsql]⟩

/-- A registration that has nothing left to do is through. -/
theorem Stands.through_of_atMost {username password : Bytes} {pt : Point} {q : Job PUnit}
    (h : Stands username password pt q) (hq : AtMost 0 q) : ∃ won, pt = .through won := by
  cases h with
  | through won => exact ⟨won, rfl⟩
  | _ => exact absurd hq id

namespace Auth

/-- No `SELECT` is made while another task is between its `SELECT` and its `INSERT`. -/
def TakesTurns (s : Auth) : Move → Prop
  | .call i _ => ∀ o ∈ s.nextCall i, o.isSelect = true →
      ∀ j < s.running.length, ∀ o' ∈ s.nextCall j, o'.isInsert = false
  | .start _ => True
  | .expire _ => True

instance (s : Auth) : ∀ m : Move, Decidable (s.TakesTurns m)
  | .call i out => by
    unfold TakesTurns
    infer_instance
  | .start _ => inferInstanceAs (Decidable True)
  | .expire _ => inferInstanceAs (Decidable True)

/-- The password that a worker registers the user with. -/
def Registering (s : Auth) (username : Bytes) (i : ℕ) (password : Bytes) : Prop :=
  ∃ fd keepAlive, s.running[i]?.map Worker.task = some (.register fd keepAlive username password)

/-- Every worker registers this user and is where `point` says, the race has been fair so far, and
what has been answered is the verdict of who answered it. -/
structure Race (username : Bytes) (point : ℕ → Point) (s : Auth) (log : List Reply) : Prop where
  stands : ∀ i k, s.running[i]? = some k → ∃ fd keepAlive password,
    k.task = .register fd keepAlive username password ∧ Stands username password (point i) k.rest
  fresh : ∀ i, s.running.length ≤ i → point i = .entering
  fair : Fair (s.Registering username) point (s.store.users username)
  answers : ∀ r ∈ log, ∃ won, (point r.worker).verdict = some won ∧ r ∈ (Point.answer won).reply r.worker

variable {username : Bytes} {point : ℕ → Point} {s : Auth} {log : List Reply}

theorem race_of_running_nil (hrunning : s.running = []) (habsent : s.store.users username = none) :
    s.Race username (fun _ ↦ .entering) [] where
  stands i k hk := absurd hk (by simp [hrunning])
  fresh _ _ := rfl
  fair := by
    refine ⟨fun i j hi ↦ absurd hi (by simp [Point.Ahead, Point.verdict]), fun i hi ↦ absurd hi (by simp),
      fun password hrow ↦ absurd (habsent.symm.trans hrow) (by simp), fun i b hi ↦ ?_⟩
    exact absurd hi (by simp [Point.verdict])
  answers r hr := absurd hr List.not_mem_nil

/-- Those who take turns do not look while somebody is about to insert. -/
theorem Race.turn (h : s.Race username point log) {i : ℕ} {out : Outcome}
    (hturns : s.TakesTurns (.call i out)) {k : Worker} (hk : s.running[i]? = some k)
    (hi : point i = .selecting) (j : ℕ) : point j ≠ .inserting := by
  intro hj
  obtain ⟨-, -, password, -, hstands⟩ := h.stands i k hk
  rw [hi] at hstands
  obtain ⟨o, next, hrest, hselect⟩ := hstands.select
  have hlen : j < s.running.length := by
    by_contra hlen
    exact absurd (hj.symm.trans (h.fresh j (by omega))) (by simp)
  obtain ⟨-, -, password', -, hstands'⟩ := h.stands j _ (List.getElem?_eq_getElem hlen)
  rw [hj] at hstands'
  obtain ⟨o', next', hrest', hinsert⟩ := hstands'.insert
  have hnext : o ∈ s.nextCall i := by
    obtain ⟨t, rest⟩ := k
    obtain rfl : rest = .call o next := hrest
    simp [nextCall, hk]
  have hnext' : o' ∈ s.nextCall j := by
    cases hworker : s.running[j] with
    | mk t rest =>
      rw [hworker] at hrest'
      obtain rfl : rest = .call o' next' := hrest'
      simp [nextCall, List.getElem?_eq_getElem hlen, hworker]
  rw [hturns o hnext hselect j hlen o' hnext'] at hinsert
  exact absurd hinsert (by simp)

theorem Race.call (h : s.Race username point log) {i : ℕ} {out : Outcome} {t : Task} {o : Call}
    {next : Option o.Res → Job PUnit} {store : Store} {r : Option o.Res}
    (hi : s.running[i]? = some ⟨t, .call o next⟩) (hexec : s.store.exec o out = some (store, r))
    (hfine : out.isFine = true) (hturns : s.TakesTurns (.call i out)) :
    ∃ point', Race username point'
      { store := store, running := s.running.set i ⟨t, next r⟩,
        issued := s.issued ++ t.issues o r, answers := s.answers ++ t.answers o }
      (log ++ o.reply i) := by
  obtain ⟨fd, keepAlive, password, ht, hstands⟩ := h.stands i _ hi
  obtain ⟨hstep, hrow, hreply⟩ := hstands.step hexec hfine (h.fair.absent i) i
  have hlen := (List.getElem?_eq_some_iff.mp hi).1
  -- nobody changes the task
  have hregistering : ∀ j password', s.Registering username j password' →
      ∃ fd keepAlive, (s.running.set i ⟨t, next r⟩)[j]?.map Worker.task =
        some (.register fd keepAlive username password') := by
    rintro j password' ⟨fd', keepAlive', hj⟩
    refine ⟨fd', keepAlive', ?_⟩
    by_cases hji : i = j
    · subst hji
      rw [hi] at hj
      rw [List.getElem?_set_self hlen]
      exact hj
    · rw [List.getElem?_set_ne hji]
      exact hj
  have hfair := h.fair.next ⟨fd, keepAlive, by rw [hi]; exact congrArg some ht⟩ (h.turn hturns hi)
  rw [← hrow] at hfair
  refine ⟨_, fun j k hk ↦ ?_, fun j hj ↦ ?_, hfair.mono hregistering, fun r' hr' ↦ ?_⟩
  · by_cases hji : i = j
    · subst hji
      rw [List.getElem?_set_self hlen] at hk
      obtain rfl := Option.some.inj hk
      rw [Function.update_self]
      exact ⟨fd, keepAlive, password, ht, hstep⟩
    · rw [List.getElem?_set_ne hji] at hk
      rw [Function.update_of_ne (Ne.symm hji)]
      exact h.stands j k hk
  · rw [List.length_set] at hj
    rw [Function.update_of_ne (by omega)]
    exact h.fresh j hj
  · rcases List.mem_append.mp hr' with hr' | hr'
    · obtain ⟨won, hverdict, hanswer⟩ := h.answers r' hr'
      refine ⟨won, ?_, hanswer⟩
      by_cases hworker : r'.worker = i
      · rw [hworker] at hverdict ⊢
        rw [Function.update_self]
        exact Point.verdict_next hverdict _ _
      · rwa [Function.update_of_ne hworker]
    · rw [hreply] at hr'
      obtain ⟨won, hpt, hanswer⟩ := Point.answering_of_mem_reply hr'
      have hworker : r'.worker = i := by
        cases won <;> rw [List.mem_singleton.mp hanswer]
      rw [hworker, Function.update_self, hpt]
      exact ⟨won, rfl, hanswer⟩

theorem Race.start (h : s.Race username point log) {t : Task}
    (ht : (Move.start t).Registers username) : (s.step (.start t)).Race username point log := by
  cases t with
  | register fd keepAlive name password =>
    obtain rfl : name = username := ht
    have hrunning : (s.step (.start (.register fd keepAlive name password))).running =
      s.running ++ [⟨.register fd keepAlive name password, _⟩] := rfl
    refine ⟨fun i k hk ↦ ?_, fun i hi ↦ h.fresh i ((s.running_length_le _).trans hi),
      h.fair.mono fun i password' hi ↦ ?_, h.answers⟩
    · rcases Nat.lt_or_ge i s.running.length with hi | hi
      · rw [hrunning, List.getElem?_append_left hi] at hk
        exact h.stands i k hk
      · rw [hrunning, List.getElem?_append_right hi, List.getElem?_singleton] at hk
        split at hk
        · obtain rfl := Option.some.inj hk
          rw [h.fresh i hi]
          exact ⟨fd, keepAlive, password, rfl, register_stands fd keepAlive name password⟩
        · exact absurd hk (by simp)
    · obtain ⟨fd', keepAlive', hi⟩ := hi
      have hlen : i < s.running.length := by
        by_contra hlen
        rw [List.getElem?_eq_none (by omega)] at hi
        exact absurd hi (by simp)
      refine ⟨fd', keepAlive', ?_⟩
      rw [hrunning, List.getElem?_append_left hlen]
      exact hi
  | _ => exact absurd ht id

theorem Race.step (h : s.Race username point log) {m : Move} (hm : m.Registers username)
    (hturns : s.TakesTurns m) : ∃ point', (s.step m).Race username point' (log ++ s.reply m) := by
  rcases s.move_cases m with ⟨t, rfl⟩ | ⟨key, rfl⟩ | ⟨e, hreply⟩ |
    ⟨i, out, t, o, next, store, r, rfl, hi, hexec, hreply, e⟩
  · rw [reply, List.append_nil]
    exact ⟨point, h.start hm⟩
  · rw [reply, List.append_nil]
    exact ⟨point, h.stands, h.fresh, h.fair, h.answers⟩
  · rw [e, hreply, List.append_nil]
    exact ⟨point, h⟩
  · rw [e, hreply]
    exact h.call hi hexec hm hturns

theorem race_run (hrunning : s.running = []) (habsent : s.store.users username = none)
    {ms : List Move} (hms : ∀ m ∈ ms, m.Registers username) (hturns : Meets Auth.step TakesTurns s ms) :
    ∃ point, (s.run ms).Race username point (s.replies ms) :=
  replies_invariant (I := fun s log ↦ ∃ point, s.Race username point log)
    (fun _ _ _ h hm ↦ h.elim fun _ h ↦ h.step hm.2 hm.1) (hturns.and hms)
    ⟨_, race_of_running_nil hrunning habsent⟩

/-- Whoever is through has given one answer, its verdict. -/
theorem Race.repliesOf (h : s.Race username point log) {i : ℕ} (hone : (repliesOf i log).length ≤ 1)
    (hreplied : ∃ r ∈ log, r.worker = i) {won : Bool} (hwon : (point i).verdict = some won) :
    Auth.repliesOf i log = (Point.answer won).reply i := by
  obtain ⟨r, hr, rfl⟩ := hreplied
  obtain ⟨won', hverdict, hanswer⟩ := h.answers r hr
  obtain rfl : won = won' := Option.some.inj (hwon.symm.trans hverdict)
  have hmem : r ∈ Auth.repliesOf r.worker log := mem_repliesOf.mpr ⟨hr, rfl⟩
  obtain ⟨r', hr'⟩ := List.length_eq_one_iff.mp
    (Nat.le_antisymm hone (List.length_pos_of_mem hmem))
  rw [hr'] at hmem ⊢
  obtain rfl := List.mem_singleton.mp hmem
  cases won <;> rw [List.mem_singleton.mp hanswer] <;> rfl

end Auth

/-- **Registering at the same time.**  Any number of tasks register one user, who is not there yet,
with any passwords, and all calls come out fine.  As long as no task looks while another is between
its `SELECT` and its `INSERT`, every answer is a 200 or a 409, and a 200 goes to the task whose
password the users table has.  When all tasks are through, exactly one has answered 200, and all
others 409. -/
theorem register_race (s : Auth) (username : Bytes) (ms : List Move) (hrunning : s.running = [])
    (habsent : s.store.users username = none) (hms : ∀ m ∈ ms, m.Registers username)
    (hturns : Meets Auth.step Auth.TakesTurns s ms) :
    (∀ r ∈ s.replies ms, r.statusCode = 409 ∨ r.statusCode = 200 ∧ ∃ password,
        (s.run ms).Registering username r.worker password ∧
        (s.run ms).store.users username = some password) ∧
      ((s.run ms).running ≠ [] →
        (∀ i < (s.run ms).running.length, (s.run ms).Finished i) →
        ∃ i password, (s.run ms).Registering username i password ∧
          (s.run ms).store.users username = some password ∧
          Auth.repliesOf i (s.replies ms) = [⟨i, 200, messageJson "register success"⟩] ∧
          ∀ j < (s.run ms).running.length, j ≠ i →
            Auth.repliesOf j (s.replies ms) = [⟨j, 409, errorJson "user already exists"⟩]) := by
  obtain ⟨point, hrace⟩ := Auth.race_run hrunning habsent hms hturns
  -- the row belongs to whoever has won
  have howner : ∀ i, (point i).verdict = some true → ∃ password,
      (s.run ms).Registering username i password ∧ (s.run ms).store.users username = some password := by
    intro i hi
    obtain ⟨password, hrow⟩ := Option.ne_none_iff_exists'.mp (hrace.fair.present i true hi)
    obtain ⟨j, hj, hregistering⟩ := hrace.fair.owner password hrow
    obtain rfl := hrace.fair.alone i j (.inr hi) (.inr hj)
    exact ⟨password, hregistering, hrow⟩
  refine ⟨fun r hr ↦ ?_, fun hne hfinished ↦ ?_⟩
  · obtain ⟨won, hverdict, hanswer⟩ := hrace.answers r hr
    cases won with
    | false => exact .inl (by rw [List.mem_singleton.mp hanswer])
    | true => exact .inr ⟨by rw [List.mem_singleton.mp hanswer], howner _ hverdict⟩
  · have hthrough : ∀ i < (s.run ms).running.length, ∃ won, (point i).verdict = some won := by
      intro i hi
      obtain ⟨k, hk, hdone⟩ := hfinished i hi
      obtain ⟨-, -, password, -, hstands⟩ := hrace.stands i k hk
      obtain ⟨won, hpt⟩ := hstands.through_of_atMost hdone
      exact ⟨won, by rw [hpt]; rfl⟩
    have hanswer : ∀ i < (s.run ms).running.length, ∀ won, (point i).verdict = some won →
        Auth.repliesOf i (s.replies ms) = (Point.answer won).reply i := by
      intro i hi won hwon
      obtain ⟨hone, hreplied⟩ := Auth.replies_once hrunning ms i
      exact hrace.repliesOf hone (hreplied (hfinished i hi)) hwon
    -- somebody is through, so there is a row, so somebody has won
    obtain ⟨won, hwon⟩ := hthrough 0 (List.length_pos_iff.mpr hne)
    obtain ⟨password, hrow⟩ := Option.ne_none_iff_exists'.mp (hrace.fair.present 0 won hwon)
    obtain ⟨i, hi, hregistering⟩ := hrace.fair.owner password hrow
    have hlen : i < (s.run ms).running.length := by
      by_contra hlen
      rw [hrace.fresh i (by omega)] at hi
      exact absurd hi (by simp [Point.verdict])
    refine ⟨i, password, hregistering, hrow, hanswer i hlen true hi, fun j hj hji ↦ ?_⟩
    obtain ⟨won', hwon'⟩ := hthrough j hj
    cases won' with
    | true => exact absurd (hrace.fair.alone j i (.inr hwon') (.inr hi)) hji
    | false => exact hanswer j hj false hwon'

/-- Two registrations of one user, one after the other. -/
theorem register_race_inTurn :
    (⟨1, 409, errorJson "user already exists"⟩ : Reply) ∈
        Auth.start.replies (Move.register 0 (lit "bob") (lit "pw") ++
          .start (.register 8 true (lit "bob") (lit "qw")) ::
            [Outcome.handle 1, .served, .served, .served].map (.call 1)) ∧
      ∀ r ∈ Auth.start.replies (Move.register 0 (lit "bob") (lit "pw") ++
          .start (.register 8 true (lit "bob") (lit "qw")) ::
            [Outcome.handle 1, .served, .served, .served].map (.call 1)),
        r.statusCode = 409 ∨ r.statusCode = 200 ∧ ∃ password,
          (Auth.start.run (Move.register 0 (lit "bob") (lit "pw") ++
            .start (.register 8 true (lit "bob") (lit "qw")) ::
              [Outcome.handle 1, .served, .served, .served].map (.call 1))).Registering
            (lit "bob") r.worker password ∧
          (Auth.start.run (Move.register 0 (lit "bob") (lit "pw") ++
            .start (.register 8 true (lit "bob") (lit "qw")) ::
              [Outcome.handle 1, .served, .served, .served].map (.call 1))).store.users (lit "bob") =
            some password :=
  ⟨by decide +kernel,
    (register_race .start (lit "bob") _ rfl rfl (by decide +kernel) (by decide +kernel)).1⟩

/-- **A race that is lost.**  Both tasks look before either inserts; the `INSERT` of the second fails,
and it answers 500. -/
theorem register_lost_race :
    (∀ m ∈ [Move.start (.register 7 true (lit "bob") (lit "pw")),
          .start (.register 8 true (lit "bob") (lit "qw"))] ++
        [(0, Outcome.handle 0), (1, .handle 1), (0, .served), (1, .served), (0, .served), (1, .served),
          (0, .served), (1, .served), (0, .served), (1, .served)].map fun c ↦ .call c.1 c.2,
        m.Registers (lit "bob")) ∧
      Auth.start.replies ([Move.start (.register 7 true (lit "bob") (lit "pw")),
          .start (.register 8 true (lit "bob") (lit "qw"))] ++
        [(0, Outcome.handle 0), (1, .handle 1), (0, .served), (1, .served), (0, .served), (1, .served),
          (0, .served), (1, .served), (0, .served), (1, .served)].map fun c ↦ .call c.1 c.2) =
        [⟨0, 200, messageJson "register success"⟩, ⟨1, 500, errorJson "database error"⟩] :=
  ⟨by decide +kernel, by decide +kernel⟩

end ReactorServer
