import ChainArchive.Proofs.Database.Acquiring
import ChainArchive.Proofs.Settings.Accepted

namespace ChainArchive

open ChainArchive.Link ChainArchive.Program ChainArchive.Schema

variable {σ : Type} {α β : Type}

def Entry.attempt? : Entry → Option Reply
  | .asked (.connect _ _) reply => some reply
  | _ => none

section Repeated

variable [Server σ]

def Line.repeated (q : Request) : (n : Nat) → Line σ → List Reply × Line σ
  | 0, l => ([], l)
  | n + 1, l => ((l.ask q).1 :: ((l.ask q).2.repeated q n).1, ((l.ask q).2.repeated q n).2)

theorem Line.repeated_log (q : Request) (n : Nat) (l : Line σ) :
    (l.repeated q n).2.log = l.log ++ (l.repeated q n).1.map (.asked q) := by
  induction n generalizing l with
  | zero => simp [repeated]
  | succ n ih => simp [repeated, ih, Line.ask]

end Repeated

namespace Database

/-- Whether an outcome decides: a success, or a failure that does not pass by itself. -/
def decides : Reply → Bool
  | .ok _ => true
  | .error e => !e.isTransient

def Final (limit : Nat) (rs : List Reply) : Prop :=
  rs.length = limit ∨ rs.getLast?.any decides = true

/-- The outcomes are final, and those of fewer attempts are not. -/
structure Settled (limit : Nat) (rs : List Reply) : Prop where
  final : Final limit rs
  shortest : ∀ n < rs.length, ¬Final limit (rs.take n)

section Settled

variable {limit : Nat} {r : Reply} {rs : List Reply}

theorem final_cons (h : decides r = false) : Final (limit + 1) (r :: rs) ↔ Final limit rs := by
  unfold Final
  rw [List.length_cons, Nat.add_right_cancel_iff, List.getLast?_cons]
  cases rs.getLast? <;> simp [h]

theorem Settled.single (h : Final (limit + 1) [r]) : Settled (limit + 1) [r] := by
  refine ⟨h, fun n hn => ?_⟩
  obtain rfl : n = 0 := by simpa using hn
  simp [Final]

theorem Settled.cons (hr : decides r = false) (h : Settled limit rs) :
    Settled (limit + 1) (r :: rs) := by
  refine ⟨(final_cons hr).mpr h.final, fun n hn => ?_⟩
  cases n with
  | zero => simp [Final]
  | succ n =>
    rw [List.take_succ_cons, final_cons hr]
    exact h.shortest n (Nat.lt_of_succ_lt_succ hn)

theorem Settled.length_le (h : Settled limit rs) : rs.length ≤ limit := by
  refine Nat.le_of_not_lt fun hlt => h.shortest limit hlt (.inl ?_)
  rw [List.length_take, Nat.min_eq_left (Nat.le_of_lt hlt)]

end Settled

section Connecting

variable [Server σ]

/-- From `l` on, the first `n` attempts settle the matter, and the last of them came to `reply`. -/
structure Attempted (limit : Nat) (q : Request) (l : Line σ) (n : Nat) (reply : Reply) : Prop where
  settled : Settled limit (l.repeated q n).1
  last : (l.repeated q n).1.getLast? = some reply

namespace Attempted

variable {limit n : Nat} {q : Request} {l : Line σ} {reply : Reply}

theorem single (h : decides (l.ask q).1 = true ∨ limit = 0) :
    Attempted (limit + 1) q l 1 (l.ask q).1 := by
  refine ⟨.single ?_, rfl⟩
  obtain h | rfl := h
  · exact .inr h
  · exact .inl rfl

theorem again (hr : decides (l.ask q).1 = false)
    (h : Attempted limit q (l.ask q).2 n reply) : Attempted (limit + 1) q l (n + 1) reply := by
  refine ⟨h.settled.cons hr, ?_⟩
  rw [Line.repeated, List.getLast?_cons, h.last]
  rfl

end Attempted

theorem attempt_settles (url application : String) (further : Nat) (l : Line σ) :
    ∃ n reply, Attempted (further + 1) (.connect url application) l n reply ∧
      (attempt url application further).runFrom l =
        (.ok reply, (l.repeated (.connect url application) n).2) := by
  -- An attempt that does not decide is followed by one less, from the line that it leaves.
  induction further generalizing l with
  | zero => exact ⟨1, _, .single (.inr rfl), rfl⟩
  | succ further ih =>
    have hfirst : (request (.connect url application)).runFrom l =
        (.ok (l.ask (.connect url application)).1, (l.ask (.connect url application)).2) := rfl
    rw [attempt, runFrom_bind_ok hfirst]
    cases hd : decides (l.ask (.connect url application)).1 with
    | true =>
      refine ⟨1, _, .single (.inl hd), ?_⟩
      cases hr : (l.ask (.connect url application)).1 with
      | ok v => rfl
      | error e =>
        have ht : e.isTransient = false := by simpa [hr, decides] using hd
        simp [ht, Line.repeated]
    | false =>
      obtain ⟨n, reply, h, hrun⟩ := ih (l.ask (.connect url application)).2
      refine ⟨n + 1, reply, h.again hd, ?_⟩
      cases hr : (l.ask (.connect url application)).1 with
      | ok v => cases hr ▸ hd
      | error e =>
        have ht : e.isTransient = true := by simpa [hr, decides] using hd
        simp only [ht]
        exact hrun

def connectEnd (reply : Reply) : Except Failure Unit :=
  (reply.mapError connectFailure).map fun _ => ()

theorem connect_settles {url application : String} {maxTries : Int} (l : Line σ)
    (ha : applicationName url = .ok application) (h : 1 ≤ maxTries) :
    ∃ n reply, Attempted maxTries.toNat (.connect url application) l n reply ∧
      (connect url maxTries).runFrom l =
        (connectEnd reply, (l.repeated (.connect url application) n).2) := by
  have hlimit : attemptLimit maxTries - 1 + 1 = maxTries.toNat := by
    rw [attemptLimit, if_pos h]
    omega
  obtain ⟨n, reply, hn, hrun⟩ :=
    attempt_settles url application (attemptLimit maxTries - 1) l
  rw [hlimit] at hn
  have hname : (ofUrl (applicationName url)).runFrom l = (.ok application, l) := by
    rw [ha]
    rfl
  refine ⟨n, reply, hn, ?_⟩
  rw [connect, runFrom_bind_ok hname, runFrom_bind_ok hrun]
  cases reply <;> rfl

theorem connect_unread {url : String} {fault : Url.Fault} (l : Line σ) (maxTries : Int)
    (ha : applicationName url = .error fault) :
    (connect url maxTries).runFrom l = (.error (.badUrl fault), l) := by
  rw [connect, ha, ofUrl]
  rfl

end Connecting

/-- The outcomes of attempts in rounds, `n` at most, each of them settled. Once a round was given
up no attempt follows, and its failure is how the program ended. -/
inductive Rounds (limit : Nat) (r : Except Failure α) : (n : Nat) → List Reply → Prop
  | none {n : Nat} : Rounds limit r n []
  | made {n : Nat} {rs rest : List Reply} {v : Value} : Settled limit rs →
      rs.getLast? = some (.ok v) → Rounds limit r n rest → Rounds limit r (n + 1) (rs ++ rest)
  | gaveUp {n : Nat} {rs : List Reply} {e : ServerError} : Settled limit rs →
      rs.getLast? = some (.error e) → r = .error (connectFailure e) → Rounds limit r (n + 1) rs

namespace Rounds

variable {limit m n : Nat} {rs rest : List Reply}

theorem length_le {r : Except Failure α} (h : Rounds limit r n rs) : rs.length ≤ n * limit := by
  induction h with
  | none => exact Nat.zero_le _
  | @made n rs rest _ hrs _ _ ih =>
    have := hrs.length_le
    rw [List.length_append, Nat.succ_mul]
    omega
  | @gaveUp n rs _ hrs _ _ =>
    have := hrs.length_le
    rw [Nat.succ_mul]
    omega

theorem mono {r : Except Failure α} (h : Rounds limit r n rs) (hmn : n ≤ m) :
    Rounds limit r m rs := by
  induction h generalizing m with
  | none => exact .none
  | made hrs hlast _ ih =>
    cases m with
    | zero => cases hmn
    | succ m => exact .made hrs hlast (ih (Nat.le_of_succ_le_succ hmn))
  | gaveUp hrs hlast hr =>
    cases m with
    | zero => cases hmn
    | succ m => exact .gaveUp hrs hlast hr

theorem error {f : Failure} (h : Rounds limit (.error f : Except Failure α) n rs) :
    Rounds limit (.error f : Except Failure β) n rs := by
  induction h with
  | none => exact .none
  | made hrs hlast _ ih => exact .made hrs hlast ih
  | gaveUp hrs hlast hr => exact .gaveUp hrs hlast (congrArg Except.error (Except.error.inj hr))

theorem append {x : α} {r : Except Failure β} (h : Rounds limit (.ok x : Except Failure α) m rs)
    (h' : Rounds limit r n rest) : Rounds limit r (m + n) (rs ++ rest) := by
  induction h with
  | none => exact h'.mono (Nat.le_add_left _ _)
  | made hrs hlast _ ih =>
    rw [List.append_assoc, Nat.add_right_comm]
    exact .made hrs hlast ih
  | gaveUp _ _ hr => cases hr

end Rounds

/-- The program connects in `n` rounds at most, as `log` shows in the states that it runs over. -/
def Tries {S : Type} (log : S → List Entry) (limit n : Nat) (p : Program S α) : Prop :=
  ∀ s, ∃ es, log (p.runFrom s).2 = log s ++ es ∧
    Rounds limit (p.runFrom s).1 n (es.filterMap Entry.attempt?)

namespace Tries

variable {S : Type} {log : S → List Entry} {limit m n : Nat} {p : Program S α}
  {f : α → Program S β}

theorem mono (h : Tries log limit n p) (hmn : n ≤ m) : Tries log limit m p := by
  intro s
  obtain ⟨es, hlog, hes⟩ := h s
  exact ⟨es, hlog, hes.mono hmn⟩

theorem of_none (h : ∀ s, ∃ es, log (p.runFrom s).2 = log s ++ es ∧ ∀ e ∈ es, e.attempt? = none) :
    Tries log limit n p := by
  intro s
  obtain ⟨es, hlog, hes⟩ := h s
  refine ⟨es, hlog, ?_⟩
  rw [List.filterMap_eq_nil_iff.mpr hes]
  exact .none

theorem of_log_eq (h : ∀ s, log (p.runFrom s).2 = log s) : Tries log limit n p :=
  of_none fun s => ⟨[], by rw [h, List.append_nil], nofun⟩

theorem bind (hp : Tries log limit m p) (hf : ∀ x, Tries log limit n (f x)) :
    Tries log limit (m + n) (p >>= f) := by
  intro s
  obtain ⟨es, hlog, hes⟩ := hp s
  rw [runFrom_bind]
  cases h : p.runFrom s with
  | mk r t =>
    rw [h] at hlog hes
    cases r with
    | error e => exact ⟨es, hlog, (hes.mono (Nat.le_add_right m n)).error⟩
    | ok x =>
      obtain ⟨fs, hlog', hfs⟩ := hf x t
      refine ⟨es ++ fs, ?_, ?_⟩
      · rw [hlog', show log t = log s ++ es from hlog, List.append_assoc]
      · rw [List.filterMap_append]
        exact hes.append hfs

theorem ensuring {last : S → S} {e : Entry} (h : Tries log limit n p)
    (hlast : ∀ s, log (last s) = log s ++ [e]) (he : e.attempt? = none) :
    Tries log limit n (p.ensuring last) := by
  intro s
  obtain ⟨es, hlog, hes⟩ := h s
  refine ⟨es ++ [e], ?_, ?_⟩
  · rw [runFrom_ensuring, hlast, hlog, List.append_assoc]
  · simpa [he] using hes

end Tries

section Rounds

variable [Server σ] {limit : Nat}

omit [Server σ] in
theorem ofUrl_tries (r : Except Url.Fault α) : Tries (S := Line σ) Line.log limit 0 (ofUrl r) :=
  .of_log_eq fun _ => rfl

theorem request_tries (q : Request) (hq : ∀ reply, (Entry.asked q reply).attempt? = none) :
    Tries (S := Line σ) Line.log limit 0 (request q) :=
  .of_none fun l => ⟨[.asked q (l.ask q).1], rfl, by simpa using hq _⟩

theorem connect_tries (url : String) {maxTries : Int} (h : 1 ≤ maxTries) :
    Tries (S := Line σ) Line.log maxTries.toNat 1 (connect url maxTries) := by
  intro l
  cases ha : applicationName url with
  | error fault =>
    rw [connect_unread l maxTries ha]
    exact ⟨[], (List.append_nil _).symm, .none⟩
  | ok application =>
    obtain ⟨n, reply, hn, hrun⟩ := connect_settles l ha h
    rw [hrun]
    refine ⟨_, Line.repeated_log _ n l, ?_⟩
    have hattempts : ((l.repeated (.connect url application) n).1.map
        (Entry.asked (.connect url application))).filterMap Entry.attempt? =
        (l.repeated (.connect url application) n).1 := by
      rw [List.filterMap_map]
      exact List.filterMap_some
    rw [hattempts]
    cases reply with
    | ok v => simpa using Rounds.made (r := connectEnd (.ok v)) (n := 0) hn.settled hn.last .none
    | error e => exact .gaveUp hn.settled hn.last rfl

theorem onMaintenance_tries {body : Program (Line σ) α} (url : String) {maxTries : Int}
    (h : 1 ≤ maxTries) (hbody : Tries Line.log maxTries.toNat 0 body) :
    Tries Line.log maxTries.toNat 1 (onMaintenance url maxTries body) := by
  refine Tries.bind (m := 0) (n := 1) (ofUrl_tries (maintenanceUrl url)) fun target => ?_
  exact (connect_tries target h).bind fun _ => hbody.ensuring (fun _ => rfl) rfl

theorem databaseExists_tries (url : String) {maxTries : Int} (h : 1 ≤ maxTries) :
    Tries (S := Line σ) Line.log maxTries.toNat 1 (databaseExists url maxTries) := by
  refine onMaintenance_tries url h ?_
  refine Tries.bind (m := 0) (n := 0) (ofUrl_tries (databaseName url)) fun name => ?_
  refine Tries.bind (m := 0) (n := 0)
    (request_tries (.fetchValue existsSql [.text name]) fun _ => rfl) fun reply => ?_
  cases reply <;> exact .of_log_eq fun _ => rfl

theorem onDatabase_tries (sql : String → String) (failure : String → ServerError → Failure)
    (url : String) {maxTries : Int} (h : 1 ≤ maxTries) :
    Tries (S := Line σ) Line.log maxTries.toNat 1 (onDatabase sql failure url maxTries) := by
  refine Tries.bind (m := 0) (n := 1) (ofUrl_tries (databaseName url)) fun name =>
    onMaintenance_tries url h ?_
  refine Tries.bind (m := 0) (n := 0) (request_tries (.execute (sql name) []) fun _ => rfl)
    fun reply => ?_
  cases reply <;> exact .of_log_eq fun _ => rfl

theorem ensureDatabase_tries (url : String) {maxTries : Int} (h : 1 ≤ maxTries) :
    Tries (S := Line σ) Line.log maxTries.toNat 2 (ensureDatabase url maxTries) := by
  refine Tries.bind (m := 1) (n := 1) (databaseExists_tries url h) fun found => ?_
  split
  · exact onDatabase_tries createSql .createDatabase url h
  · exact .of_log_eq fun _ => rfl

end Rounds

end Database

section Applied

variable {t : Terms} {ds : List Ddl} {r : Except Failure Unit} {es : List Entry}

theorem Link.Applied.attempt?_eq_none (h : Applied t ds r es) : ∀ e ∈ es, e.attempt? = none := by
  induction h with
  | nil | cutOff => exact List.forall_mem_nil _
  | failed => exact List.forall_mem_singleton.mpr rfl
  | cons he _ ih =>
    obtain ⟨v, rfl⟩ := he
    exact List.forall_mem_cons.mpr ⟨rfl, ih⟩

end Applied

namespace Database.Service

variable [Server σ] {limit n : Nat}

def log (s : Service σ) : List Entry := s.line.log

omit [Server σ] in
theorem onLine_tries {p : Program (Line σ) α} (h : Tries Line.log limit n p) :
    Tries log limit n (onLine p) :=
  fun s => h s.line

theorem applyEach_tries (id : SessionId) (ds : List Ddl) :
    Tries (S := Service σ) log limit 0 (onSession id (applyEach ds)) := by
  refine .of_none fun s => ?_
  cases hx : s.session? id with
  | none =>
    rw [onSession_unknown hx]
    exact ⟨[], (List.append_nil _).symm, nofun⟩
  | some x =>
    obtain ⟨es, hs, happlied⟩ := applyEach_records _ ds ⟨x, s.line⟩ rfl
    rw [onSession_runFrom hx]
    exact ⟨es, hs.log_eq, happlied.attempt?_eq_none⟩

theorem openSession_tries (url : String) {maxTries : Int} (h : 1 ≤ maxTries) :
    Tries (S := Service σ) log maxTries.toNat 1 (openSession url maxTries) :=
  Tries.bind (m := 1) (n := 0) (onLine_tries (connect_tries url h)) fun _ =>
    .of_log_eq fun _ => rfl

theorem resetting_tries (recreate : Bool) (id : SessionId) :
    Tries (S := Service σ) log limit 0 (resetting recreate id) := by
  cases recreate with
  | false => exact .of_log_eq fun _ => rfl
  | true =>
    refine Tries.bind (m := 0) (n := 0) (applyEach_tries id latest.tableDrops) fun _ => ?_
    exact Tries.bind (m := 0) (n := 0) (applyEach_tries id latest.sequenceDrops) fun _ =>
      .of_log_eq fun _ => rfl

def opening (a : Access) (recreate : Bool) : Program (Service σ) SessionId := do
  if a.create then onLine (ensureDatabase a.url a.maxTries)
  let id ← openSession a.url a.maxTries
  modify fun s => { s with held := some id }
  resetting recreate id

theorem opening_tries {a : Access} (h : 1 ≤ a.maxTries) (recreate : Bool) :
    Tries (S := Service σ) log a.maxTries.toNat 3 (opening a recreate) := by
  have hopen : Tries (S := Service σ) log a.maxTries.toNat 1
      (openSession a.url a.maxTries >>= fun id =>
        modify (fun s => { s with held := some id }) >>= fun _ => resetting recreate id) := by
    refine Tries.bind (m := 1) (n := 0) (openSession_tries a.url h) fun id => ?_
    exact Tries.bind (m := 0) (n := 0) (.of_log_eq fun _ => rfl) fun _ =>
      resetting_tries recreate id
  unfold opening
  split
  · exact Tries.bind (m := 2) (n := 1) (onLine_tries (ensureDatabase_tries a.url h)) fun _ => hopen
  · exact hopen.mono (by decide)

theorem acquire_tries {s : Service σ} (limit : Nat) (url : Option String) (recreate : Bool)
    (h : ∀ a, ((access url).runFrom s).1 = .ok a → a.maxTries.toNat = limit ∧ 1 ≤ a.maxTries) :
    ∃ es, ((acquire url recreate).runFrom s).2.line.log = s.line.log ++ es ∧
      Rounds limit ((acquire url recreate).runFrom s).1 3 (es.filterMap Entry.attempt?) := by
  have hsame : ((access url).runFrom s).2.line = s.line :=
    access_maintains (P := fun t => t.line = s.line) (fun _ _ ht => ht) url s rfl
  simp only [acquire, runFrom_bind, runFrom_get]
  cases s.usable? with
  | some id => exact ⟨[], (List.append_nil _).symm, .none⟩
  | none =>
    simp only [runFrom_bind]
    cases ha : (access url).runFrom s with
    | mk r t =>
      rw [ha] at h hsame
      cases r with
      | error f => exact ⟨[], by simpa using congrArg Line.log hsame, .none⟩
      | ok a =>
        obtain ⟨rfl, htries⟩ := h a rfl
        rw [← show t.line = s.line from hsame]
        exact opening_tries htries recreate t

omit [Server σ] in
theorem access_settings {s : Service σ} {a : Access} {t : Settings.Table} {n : Int}
    (hs : ((getSettings ".").runFrom s).1 = .ok t)
    (hn : Json.lookup "connect_max_tries" t = some (.int n))
    (ha : ((access none).runFrom s).1 = .ok a) : a.maxTries = n := by
  have hof : (Access.ofSettings t).maxTries = n := by
    simp [Access.ofSettings, Settings.valueOf, hn]
  cases hrun : (getSettings ".").runFrom s with
  | mk r u =>
    obtain rfl : r = .ok t := by rw [← hs, hrun]
    have hmap : (Access.ofSettings <$> getSettings ".").runFrom s =
        (.ok (Access.ofSettings t), u) := by
      rw [map_eq_pure_bind, runFrom_bind_ok hrun]
      rfl
    simp only [access, runFrom_bind_ok hmap] at ha
    split at ha
    · cases ha
    · cases ha
      exact hof

omit [Server σ] in
theorem access_stated {s : Service σ} {a : Access} {url : String}
    (ha : ((access (some url)).runFrom s).1 = .ok a) : a.maxTries = 5 := by
  simp only [access, runFrom_bind, runFrom_pure] at ha
  split at ha
  · cases ha
  · cases ha
    rfl

/-- Attempts are bounded and stop at the first outcome that decides. How many are made is settled by
what the attempts, one after the other, come to, and connecting ends as the last of them did.
Acquiring a session with accepted settings, or with a stated URL and the five attempts that are
allowed then, takes three rounds at most, and no attempt follows a round that was given up. -/
theorem attempts_bounded :
    (∀ (l : Line σ) (url application : String) (maxTries : Int),
      applicationName url = .ok application → 1 ≤ maxTries →
      ∃ n reply, Attempted maxTries.toNat (.connect url application) l n reply ∧
        (connect url maxTries).runFrom l =
          (connectEnd reply, (l.repeated (.connect url application) n).2) ∧
        (l.repeated (.connect url application) n).2.log =
          l.log ++ (l.repeated (.connect url application) n).1.map
            (.asked (.connect url application))) ∧
    (∀ given t : Settings.Table, (Settings.names given).Nodup → Settings.check given = .ok t →
      ∃ n : Int, Json.lookup "connect_max_tries" t = some (.int n) ∧ 1 ≤ n ∧
        ∀ (s : Service σ) (recreate : Bool), ((getSettings ".").runFrom s).1 = .ok t →
          ∃ es, ((acquire none recreate).runFrom s).2.line.log = s.line.log ++ es ∧
            Rounds n.toNat ((acquire none recreate).runFrom s).1 3 (es.filterMap Entry.attempt?) ∧
            (es.filterMap Entry.attempt?).length ≤ 3 * n) ∧
    ∀ (s : Service σ) (url : String) (recreate : Bool),
      ∃ es, ((acquire (some url) recreate).runFrom s).2.line.log = s.line.log ++ es ∧
        Rounds 5 ((acquire (some url) recreate).runFrom s).1 3 (es.filterMap Entry.attempt?) ∧
        (es.filterMap Entry.attempt?).length ≤ 3 * 5 := by
  refine ⟨fun l url application maxTries ha h => ?_, fun given t hgiven hcheck => ?_, ?_⟩
  · obtain ⟨n, reply, hn, hrun⟩ := connect_settles l ha h
    exact ⟨n, reply, hn, hrun, Line.repeated_log _ n l⟩
  · obtain ⟨m, hm, rfl⟩ := Settings.means_of_check hgiven hcheck
    refine ⟨m.tries, rfl, hm.one_le, fun s recreate hs => ?_⟩
    obtain ⟨es, hlog, hes⟩ := acquire_tries m.tries.toNat none recreate fun a ha => by
      rw [access_settings hs rfl ha]
      exact ⟨rfl, hm.one_le⟩
    refine ⟨es, hlog, hes, ?_⟩
    have := hes.length_le
    have := hm.one_le
    omega
  · intro s url recreate
    obtain ⟨es, hlog, hes⟩ := acquire_tries (s := s) 5 (some url) recreate fun a ha => by
      rw [access_stated ha]
      decide
    exact ⟨es, hlog, hes, hes.length_le⟩

theorem attempts_bounded_exhausted :
    let l : Line Script := ⟨{ Script.empty with outcomes := [.refused, .starting, .accepted] }, []⟩
    let given : Settings.Table :=
      [("db_url", .text "postgresql://h/evt"), ("connect_max_tries", .text "2")]
    let t : Settings.Table := [("create_database", .bool true), ("connect_max_tries", .int 2),
      ("log_level", .text "INFO"), ("db_url", .text "postgresql://h/evt")]
    let outcomes := [.lost, .accepted, .refused, .accepted, .starting, .lost]
    let s : Service Script := ⟨⟨{ Script.empty with outcomes }, []⟩, [], some t, [], none⟩
    (∃ n reply, Attempted 3 (.connect "postgresql://h/evt" "evt-pgsync") l n reply ∧
      (connect "postgresql://h/evt" 3).runFrom l =
        (connectEnd reply, (l.repeated (.connect "postgresql://h/evt" "evt-pgsync") n).2)) ∧
    Settings.check given = .ok t ∧ ((getSettings ".").runFrom s).1 = .ok t ∧
    ∃ es, ((acquire none false).runFrom s).2.line.log = es ∧
      Rounds 2 ((acquire none false).runFrom s).1 3 (es.filterMap Entry.attempt?) ∧
      (es.filterMap Entry.attempt?).length = 6 := by
  intro l given t outcomes s
  have hname : applicationName "postgresql://h/evt" = .ok "evt-pgsync" := by rfl
  have hgiven : (Settings.names given).Nodup := by decide
  have hmeans : Settings.Means given ⟨"postgresql://h/evt", true, 2, "INFO"⟩ :=
    ⟨rfl, ⟨"postgresql://", by decide, by decide⟩, by decide +kernel, by rfl, by decide,
      by decide +kernel, by decide⟩
  have hcheck : Settings.check given = .ok t := Settings.check_of_means hgiven hmeans
  obtain ⟨hconnect, hsettings, -⟩ := attempts_bounded (σ := Script)
  obtain ⟨n, reply, hn, hrun, -⟩ := hconnect l _ _ 3 hname (by decide)
  obtain ⟨m, hm, -, hrounds⟩ := hsettings given t hgiven hcheck
  obtain rfl : 2 = m := by simpa [t, Settings.lookup_cons] using hm
  obtain ⟨es, hlog, hes, -⟩ := hrounds s false rfl
  refine ⟨⟨n, reply, hn, hrun⟩, hcheck, rfl, es, hlog, hes, ?_⟩
  have hall : es = ((acquire none false).runFrom s).2.line.log := hlog.symm
  rw [hall]
  decide +kernel

end Database.Service

end ChainArchive
