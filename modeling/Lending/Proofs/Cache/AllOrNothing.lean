import Lending.Proofs.Cache.Clock
import Lending.Proofs.Cache.Clearing
import Lending.Proofs.Cache.Innermost
import Lending.Proofs.Cache.Once

/-!
# A reset is all or nothing

A reset of the innermost level asks whether a connection is shared, resets it, reads the clock,
stores the epoch, and then closes what is idle. Each of these callbacks may raise. The order decides
what is left then: before the store nothing has changed, and after it everything has but the closes
that are still to come, and what they would have closed is in nobody's hands any more.

* `Course`: the outcomes of the callbacks.
* `ResetOutcome`: what a reset comes to, for each of them (`Course.leads_reset`). It is either
  `ResetUntouched` or `ResetSwept`, and the raise says which.
* `SessionsWithdrawn`: what was idle before a reset that swept is not lent again, in any run.
* `ResetsRecover`: the next reset that nothing breaks comes back, whatever happened in between.
* `all_or_nothing`: all of this, from every state of a stack.

The operation is `reset_cache`, with its steps in the order of the specification (section 4.2): the
shared connection, the epoch, and `remove_idle`. The store of the epoch is the point from which on
it counts.
-/

namespace Lending.Cache

/-! ## The callbacks of a reset -/

/-- Whether a clock is read. -/
def Query.reads : Query → Bool
  | .clock _ => true
  | _ => false

/-- Whether a session is closed. -/
def Query.closes : Query → Bool
  | .close _ => true
  | _ => false

/-- The answer for an outcome, which may be a raise. -/
def Reply.ofOutcome {β : Type} (answer : β → Reply) : Except String β → Reply
  | .ok b => answer b
  | .error message => .raised message

/-- The outcomes of the callbacks of one reset; an error is the message of a raise. -/
structure Course where
  /-- Whether there is a shared connection in use. -/
  shared  : Except String Bool
  /-- Resetting it. -/
  renewal : Except String Unit
  /-- The readings of the clock, in order. -/
  reading : Nat → Except String Nat
  /-- The closes, in order; one that does not raise may still fail. -/
  close   : Nat → Except String (Option SessionError)

namespace Course

variable (o : Course)

/-- The answer to a question, after these. -/
def reply (log : List Query) : Query → Reply
  | .isShared => .ofOutcome .flag o.shared
  | .resetShared => .ofOutcome (fun _ => .done) o.renewal
  | .clock _ => .ofOutcome .reading (o.reading (log.countP Query.reads))
  | .close _ =>
    .ofOutcome (fun e => (e.map Reply.refused).getD .done) (o.close (log.countP Query.closes))
  | _ => .done

/-- Callbacks with these outcomes. They remember the questions, in order. -/
def outside : Outside (List Query) Query Reply := fun log q => (o.reply log q, log ++ [q])

/-- How a close raises, if it does. -/
def fault (n : Nat) : Option String :=
  match o.close n with
  | .ok _ => none
  | .error message => some message

/-- What is asked before the clock is read, where nothing of it raises. -/
inductive Opened (shared : Bool) : List Query → Prop
  /-- The remote side shares nothing. -/
  | unshared (hs : shared = false) : Opened shared []
  | unused (hs : shared = true) (hb : o.shared = .ok false) : Opened shared [.isShared]
  | renewed (hs : shared = true) (hb : o.shared = .ok true) (hr : o.renewal = .ok ()) :
      Opened shared [.isShared, .resetShared]

/-- The first `n` readings do not raise, and do not pass this epoch. -/
def Behind (previous n : Nat) : Prop := ∀ m < n, ∃ e ≤ previous, o.reading m = .ok e

end Course

/-! ## What a reset comes to -/

/-- Nothing has come of a reset, but that its user has a reference; so what was clean goes back. -/
structure ResetUntouched (k : Nat) (c c' : Cache) : Prop where
  same     : c' = { c with keepers := c.keepers + 1 }
  goesBack : ∀ h s, (c.handle k h).target = some s → (c.handle k h).epoch = (c.level k).epoch →
    (c.handle k h).dirty = false → GoesBack k h s c'

/-- A reset has stored epoch `e` and taken all that was idle, with its slots. -/
structure ResetSwept (k e : Nat) (c c' : Cache) : Prop where
  later     : (c.level k).epoch < e
  epoch     : (c'.level k).epoch = e
  idle      : (c'.level k).pool.idle = []
  allocated : (c'.level k).pool.allocated + (c.level k).pool.idle.length =
    (c.level k).pool.allocated
  handles   : (c'.level k).handles = (c.level k).handles
  free      : (c'.level k).resetting = false

/-- What a reset of level `k` comes to: the questions asked, the stack, and the result. -/
inductive ResetOutcome (o : Course) (k : Nat) (c : Cache) : List Query → Cache → Reply → Prop
  | askingRaised {c' : Cache} {message : String} (shares : c.shared = true)
      (raises : o.shared = .error message) (nothing : ResetUntouched k c c') :
      ResetOutcome o k c [.isShared] c' (.raised message)
  | renewalRaised {c' : Cache} {message : String} (shares : c.shared = true)
      (inUse : o.shared = .ok true) (raises : o.renewal = .error message)
      (nothing : ResetUntouched k c c') :
      ResetOutcome o k c [.isShared, .resetShared] c' (.raised message)
  | readingRaised {asked : List Query} {n : Nat} {c' : Cache} {message : String}
      (opened : o.Opened c.shared asked) (behind : o.Behind (c.level k).epoch n)
      (raises : o.reading n = .error message) (nothing : ResetUntouched k c c') :
      ResetOutcome o k c (asked ++ List.replicate (n + 1) (.clock k)) c' (.raised message)
  /-- The close of `s` is the first that raises. -/
  | closeRaised {asked : List Query} {n e s : Nat} {torn rest : List Nat} {c' : Cache}
      {message : String} (opened : o.Opened c.shared asked)
      (behind : o.Behind (c.level k).epoch n) (reading : o.reading n = .ok e)
      (queue : (c.level k).pool.idle = torn ++ s :: rest)
      (quiet : ∀ j < torn.length, o.fault j = none) (raises : o.fault torn.length = some message)
      (all : ResetSwept k e c c') :
      ResetOutcome o k c (asked ++ List.replicate (n + 1) (.clock k) ++ (torn ++ [s]).map .close) c'
        (.raised message)
  /-- Nothing raises. -/
  | done {asked : List Query} {n e : Nat} {c' : Cache} (opened : o.Opened c.shared asked)
      (behind : o.Behind (c.level k).epoch n) (reading : o.reading n = .ok e)
      (quiet : ∀ j < (c.level k).pool.idle.length, o.fault j = none) (all : ResetSwept k e c c') :
      ResetOutcome o k c (asked ++ List.replicate (n + 1) (.clock k) ++
        (c.level k).pool.idle.map .close) c' (.reading e)

section

variable {o : Course} {k e n previous : Nat} {c : Cache} {asked : List Query}

/-! ### Until the epoch is stored -/

theorem Course.Opened.countP {shared : Bool} (h : o.Opened shared asked) :
    asked.countP Query.reads = 0 ∧ asked.countP Query.closes = 0 := by
  cases h <;> exact ⟨rfl, rfl⟩

theorem countP_clocks (none : asked.countP Query.reads = 0) (k n : Nat) :
    (asked ++ List.replicate n (Query.clock k)).countP Query.reads = n := by
  rw [List.countP_append, none, Nat.zero_add, List.countP_replicate]
  exact if_pos rfl

/-- The clock's next answer. -/
theorem Course.outside_clock (none : asked.countP Query.reads = 0) :
    o.outside (asked ++ List.replicate n (.clock k)) (.clock k) =
      (.ofOutcome .reading (o.reading n), asked ++ List.replicate (n + 1) (Query.clock k)) := by
  show (Reply.ofOutcome .reading (o.reading (List.countP ..)), _) = _
  rw [countP_clocks none, List.replicate_succ', List.append_assoc]

/-- Where some reading raises or passes, there is a first. -/
theorem Course.exists_behind (halts : ∃ n, ∀ e, o.reading n = .ok e → previous < e) :
    ∃ n, o.Behind previous n ∧ ∀ e, o.reading n = .ok e → previous < e := by
  classical
  refine ⟨Nat.find halts, fun m hm => ?_, Nat.find_spec halts⟩
  have more := Nat.find_min halts hm
  push Not at more
  obtain ⟨e, reading, le⟩ := more
  exact ⟨e, le, reading⟩

/-- A shared connection is reset; a raise gives the turn back. -/
theorem Course.leads_renewing {G : List Query → Cache → Frame → Prop}
    (raised : ∀ message, o.renewal = .error message → G [.isShared, .resetShared]
      (c.modify k fun l => { l with resetting := false }) (.over (.raised message)))
    (renewed : o.renewal = .ok () → program.Leads o.outside (.readingClock k (c.level k).epoch) c
      [.isShared, .resetShared] G) :
    program.Leads o.outside (.resettingShared k) c [.isShared] G := by
  refine .ask rfl ?_
  show program.Leads o.outside
    (Frame.resume c (.resettingShared k) (.ofOutcome (fun _ => .done) o.renewal)).2.1
    (Frame.resume c (.resettingShared k) (.ofOutcome (fun _ => .done) o.renewal)).1
    [.isShared, .resetShared] G
  cases hr : o.renewal with
  | error message => exact .here (raised message hr)
  | ok => exact renewed hr

/-- Whether a connection is shared is asked, where the remote side can share one. -/
theorem Course.leads_asking {G : List Query → Cache → Frame → Prop}
    (raised : ∀ message, o.shared = .error message →
      G [.isShared] (c.modify k fun l => { l with resetting := false }) (.over (.raised message)))
    (unused : o.shared = .ok false →
      program.Leads o.outside (.readingClock k (c.level k).epoch) c [.isShared] G)
    (inUse : o.shared = .ok true → program.Leads o.outside (.resettingShared k) c [.isShared] G) :
    program.Leads o.outside (.askingShared k) c [] G := by
  refine .ask rfl ?_
  show program.Leads o.outside (Frame.resume c (.askingShared k) (.ofOutcome .flag o.shared)).2.1
    (Frame.resume c (.askingShared k) (.ofOutcome .flag o.shared)).1 [.isShared] G
  cases hb : o.shared with
  | error message => exact .here (raised message hb)
  | ok b =>
    cases b with
    | false => exact unused hb
    | true => exact inUse hb

/-- The clock is read on while it does not pass the epoch. -/
theorem Course.leads_behind (behind : o.Behind previous n) (none : asked.countP Query.reads = 0) :
    program.Leads o.outside (.readingClock k previous) c asked fun log c' f =>
      log = asked ++ List.replicate n (.clock k) ∧ c' = c ∧ f = .readingClock k previous := by
  induction n with
  | zero => exact .here ⟨(List.append_nil _).symm, rfl, rfl⟩
  | succ n ih =>
    refine (ih fun m hm => behind m (Nat.lt_succ_of_lt hm)).trans ?_
    rintro _ c' _ ⟨rfl, rfl, rfl⟩
    obtain ⟨e, le, reading⟩ := behind n (Nat.lt_succ_self n)
    refine .ask rfl ?_
    rw [outside_clock none, reading]
    show program.Leads _ (program.resume c' (.readingClock k previous) (.reading e)).2.1
      (program.resume c' (.readingClock k previous) (.reading e)).1 _ _
    rw [resume_clock_of_le le]
    exact .here ⟨rfl, rfl, rfl⟩

/-! ### The sweep -/

/-- How the remote side answers the innermost pool is how its teardowns come out. -/
theorem Course.pooled_outside (none : asked.countP Query.closes = 0) (log : List Query)
    (plog : List (Pool.Query Nat)) (q : Pool.Query Nat)
    (same : log = asked ++ plog.filterMap remotely) :
    (pooled o.outside log q).1 = (Pool.teardowns o.fault plog q).1 ∧
      (pooled o.outside log q).2 =
        asked ++ (Pool.teardowns o.fault plog q).2.filterMap remotely := by
  subst same
  have count : (asked ++ plog.filterMap remotely).countP Query.closes =
      plog.countP Pool.Query.evicts := by
    rw [List.countP_append, none, Nat.zero_add, List.countP_filterMap]
    refine List.countP_congr fun q _ => ?_
    cases q <;> exact Iff.rfl
  have after : (Pool.teardowns o.fault plog q).2 = plog ++ [q] := rfl
  rw [after, List.filterMap_append, ← List.append_assoc]
  cases q with
  | evict s =>
    refine ⟨?_, rfl⟩
    show Reply.toPool (.evict s)
        (.ofOutcome _ (o.close ((asked ++ plog.filterMap remotely).countP Query.closes))) =
      ((o.fault (plog.countP Pool.Query.evicts)).map Pool.Reply.raised).getD .done
    rw [count, fault]
    cases o.close (plog.countP Pool.Query.evicts) with
    | error => rfl
    | ok e => cases e <;> rfl
  | create | isStale => exact ⟨rfl, rfl⟩
  | drop => exact ⟨rfl, (List.append_nil _).symm⟩

theorem filterMap_evict (ss : List Nat) :
    (ss.map Pool.Query.evict).filterMap remotely = ss.map .close := by
  rw [List.filterMap_map]
  exact congrFun (List.filterMap_eq_map (f := Query.close)) ss

theorem filterMap_drop (ss : List Nat) : (ss.map Pool.Query.drop).filterMap remotely = [] := by
  rw [List.filterMap_map]
  exact List.filterMap_eq_nil_iff.mpr fun _ _ => rfl

/-- What is idle is closed, up to the first close that raises. -/
theorem Course.leads_removeIdle (hk : k + 1 = c.depth) (none : asked.countP Query.closes = 0) :
    program.Leads o.outside (.pool k (.start .removeIdle)) c asked fun log c' f => ∃ p' plog r,
      Pool.Emptied o.fault (c.level k).pool.idle plog r ∧ log = asked ++ plog.filterMap remotely ∧
      p'.idle = [] ∧
      p'.allocated = (c.level k).pool.allocated - (c.level k).pool.idle.length ∧
      f = .pool k (.over r) ∧ c' = c.setPool k p' := by
  have alone := (Pool.removeIdle_alone o.fault (c.level k).pool).of_answers
    (o.pooled_outside none) (List.append_nil asked).symm
  refine (leads_pool hk alone).imp ?_
  rintro log c' f ⟨p', x', ⟨plog, rfl, r, rfl, emptied, idle, allocated⟩, rfl, rfl⟩
  exact ⟨p', plog, r, emptied, rfl, idle, allocated, rfl, rfl⟩

/-! ### The whole reset -/

/-- The stack while a reset has its turn, which has not stored anything yet. -/
def underway (k : Nat) (c : Cache) : Cache :=
  ({ c with keepers := c.keepers + 1 } : Cache).modify k fun l => { l with resetting := true }

theorem untouched (hk : k + 1 = c.depth) (free : (c.level k).resetting = false) :
    ResetUntouched k c ((underway k c).modify k fun l => { l with resetting := false }) := by
  have same : ((underway k c).modify k fun l => { l with resetting := false }) =
      { c with keepers := c.keepers + 1 } := by
    unfold underway
    rw [modify_modify]
    refine modify_of_eq _ fun l hl => ?_
    have level : c.level k = l := by
      rw [level, show c.levels[k]? = some l from hl]
      rfl
    show { l with resetting := false } = l
    rw [← level, ← free]
  refine ⟨same, fun h s target present clean => ?_⟩
  rw [same]
  exact goesBack hk target present clean

theorem swept {p : Pool Nat} (hk : k < c.depth)
    (covered : (c.level k).pool.idle.length ≤ (c.level k).pool.allocated)
    (later : (c.level k).epoch < e) (idle : p.idle = [])
    (allocated : p.allocated = (c.level k).pool.allocated - (c.level k).pool.idle.length) :
    ResetSwept k e c ((((underway k c).modify k fun l => { l with epoch := e }).setPool k p).modify
      k fun l => { l with resetting := false }) := by
  have level : ((((underway k c).modify k fun l => { l with epoch := e }).setPool k p).modify k
      fun l => { l with resetting := false }).level k =
      { c.level k with pool := p, epoch := e, resetting := false } := by
    unfold setPool underway
    rw [modify_modify, modify_modify, modify_modify, level_modify]
    exact if_pos ⟨rfl, hk⟩
  refine ⟨later, ?_, ?_, ?_, ?_, ?_⟩
  all_goals rw [level]
  · exact idle
  · show p.allocated + _ = _
    omega

/-- With the epoch stored, what is idle is closed, and the reset ends. -/
theorem Course.leads_sweeping (hk : k + 1 = c.depth)
    (covered : (c.level k).pool.idle.length ≤ (c.level k).pool.allocated)
    (opened : o.Opened c.shared asked) (behind : o.Behind (c.level k).epoch n)
    (reading : o.reading n = .ok e) (later : (c.level k).epoch < e) :
    program.Leads o.outside (.sweeping k e) ((underway k c).modify k fun l => { l with epoch := e })
      (asked ++ List.replicate (n + 1) (.clock k))
      fun log c' f => ∃ r, f = .over r ∧ ResetOutcome o k c log c' r := by
  have none : (asked ++ List.replicate (n + 1) (Query.clock k)).countP Query.closes = 0 := by
    rw [List.countP_append, opened.countP.2, List.countP_replicate]
    rfl
  have depth : k + 1 = ((underway k c).modify k fun l => { l with epoch := e }).depth := by
    rw [depth_modify, underway, depth_modify]
    exact hk
  have pool : (((underway k c).modify k fun l => { l with epoch := e }).level k).pool =
      (c.level k).pool := by
    refine (level_modify_of (g := Level.pool) _ ?_ k k).trans
      (level_modify_of (g := Level.pool) { c with keepers := c.keepers + 1 } ?_ k k)
    all_goals exact fun _ => rfl
  have taken := o.leads_removeIdle depth none
  rw [pool] at taken
  refine .sub rfl (taken.imp ?_)
  rintro _ _ _ ⟨p', plog, r, emptied, rfl, idle, allocated, rfl, rfl⟩
  have all := swept (p := p') (by omega) covered later idle allocated
  cases emptied with
  | all quiet =>
    refine ⟨.done, _, rfl, rfl, .here ⟨_, rfl, ?_⟩⟩
    rw [filterMap_evict]
    exact .done opened behind reading quiet all
  | @raised torn rest s message queue quiet raises =>
    refine ⟨.raised message, _, rfl, rfl, .here ⟨_, rfl, ?_⟩⟩
    rw [List.filterMap_append, filterMap_evict, filterMap_drop, List.append_nil]
    exact .closeRaised opened behind reading queue quiet raises all

/-- **What a reset comes to**, left alone, for every outcome of its callbacks. -/
theorem Course.leads_reset (hk : k + 1 = c.depth) (keepers : 0 < c.keepers)
    (free : (c.level k).resetting = false)
    (covered : (c.level k).pool.idle.length ≤ (c.level k).pool.allocated)
    (halts : ∃ n, ∀ e, o.reading n = .ok e → (c.level k).epoch < e) :
    program.Leads o.outside (.call (.reset k)) c [] fun log c' f =>
      ∃ r, f = .over r ∧ ResetOutcome o k c log c' r := by
  have inner : c.innermost k = true := innermost_iff.mpr hk.ge
  have epoch : ((underway k c).level k).epoch = (c.level k).epoch :=
    epoch_turn (c := { c with keepers := c.keepers + 1 }) true
  have nothing := untouched hk free
  have opened : ∀ asked, o.Opened c.shared asked → program.Leads o.outside
      (.readingClock k (c.level k).epoch) (underway k c) asked fun log c' f =>
        ∃ r, f = .over r ∧ ResetOutcome o k c log c' r := by
    intro asked opened
    obtain ⟨n, behind, passes⟩ := o.exists_behind halts
    refine (o.leads_behind behind opened.countP.1).trans ?_
    rintro _ _ _ ⟨rfl, rfl, rfl⟩
    refine .ask rfl ?_
    rw [outside_clock opened.countP.1]
    cases reading : o.reading n with
    | error message => exact .here ⟨_, rfl, .readingRaised opened behind reading nothing⟩
    | ok e =>
      have later := passes e reading
      show program.Leads _
        (program.resume (underway k c) (.readingClock k (c.level k).epoch) (.reading e)).2.1
        (program.resume (underway k c) (.readingClock k (c.level k).epoch) (.reading e)).1 _ _
      rw [resume_clock_of_lt later]
      exact o.leads_sweeping hk covered opened behind reading later
  refine leads_asked keepers (by omega) (leads_turn free ?_)
  show program.Leads o.outside
    (if c.shared && c.innermost k then .askingShared k else .readingClock k (c.level k).epoch)
    (underway k c) [] _
  rw [inner, Bool.and_true]
  cases shares : c.shared with
  | false => exact opened [] (.unshared shares)
  | true =>
    refine o.leads_asking (fun message raises => ⟨_, rfl, .askingRaised shares raises nothing⟩)
      (fun unused => ?_) (fun inUse => ?_)
    · rw [epoch]
      exact opened [.isShared] (.unused shares unused)
    · refine o.leads_renewing
        (fun message raises => ⟨_, rfl, .renewalRaised shares inUse raises nothing⟩) fun done => ?_
      rw [epoch]
      exact opened [.isShared, .resetShared] (.renewed shares inUse done)

/-- The turn is given back. -/
theorem ResetOutcome.free {log : List Query} {c' : Cache} {r : Reply}
    (h : ResetOutcome o k c log c' r) (free : (c.level k).resetting = false) :
    (c'.level k).resetting = false := by
  cases h with
  | askingRaised _ _ nothing | renewalRaised _ _ _ nothing | readingRaised _ _ _ nothing =>
    rw [nothing.same]
    exact free
  | closeRaised _ _ _ _ _ _ all | done _ _ _ _ all => exact all.free

end

/-! ## What was idle -/

section

variable {k s e i : Nat} {c c' : Cache} {w w' : World Cache Frame} {below : List Frame}
  {m : Move Op Reply} {notices : List Notice} {J J' : Journal} {limits : List Limits}
  {shared : Bool}

/-- What a reset has taken is with nobody who could lend it. -/
theorem ResetSwept.spare {r : Reply} (all : ResetSwept k e w.shared c')
    (spent : JournalSessions k J w) (hst : w.stack i = .call (.reset k) :: below)
    (inner : c'.innermost k = true)
    (hs : s ∈ (w.shared.level k).pool.idle) :
    spare k s (w.update i c' (.over r :: below)) = 0 := by
  have alone := spent.alone s
  have queued := List.count_pos_iff.mpr hs
  have replaced := World.total_replace (Frame.spares k s) hst c' (.over r)
  have fewer : w.total (Frame.spares k s) ≤ w.total (Frame.has k s) :=
    World.total_le fun f => f.spares_le_has
  have loans : (c'.level k).onLoan = (w.shared.level k).onLoan := by
    unfold Level.onLoan
    rw [all.handles]
  have user : (Frame.over r).spares k s = 0 := rfl
  unfold custody keeping at alone
  unfold Cache.spare keeping arriving
  rw [World.shared_update, all.idle, loans, if_pos inner, List.count_nil]
  omega

/-- What a borrowing of level `k` gets is with somebody who can lend it. -/
theorem spare_of_lent {epoch : Nat} (hw : program.Reach (World.init c) w)
    (ha : program.apply w m = some (w', notices))
    (heard : program.heard w m = some (.borrowing k epoch, .got s)) : 0 < spare k s w := by
  refine keeping_of_lent hw ha heard ?_
  rw [Frame.spares_pool]
  exact List.count_pos_iff.mpr (List.mem_singleton.mpr rfl)

/-- These sessions are known, nobody has them who could lend them, and they were not lent. -/
structure SessionsWithdrawn (gone : List Nat) (k : Nat) (J : Journal) (w : World Cache Frame) :
    Prop where
  known : ∀ s ∈ gone, s ∈ J.made
  spare : ∀ s ∈ gone, spare k s w = 0
  apart : ∀ x ∈ J.issued, x.session ∉ gone

namespace SessionsWithdrawn

variable {gone : List Nat}

/-- A move keeps them from being lent, unless it connects one of them again. -/
theorem move (h : SessionsWithdrawn gone k J w) (hk : k + 1 = c.depth)
    (hw : program.Reach (World.init c) w) (ha : program.apply w m = some (w', notices))
    (hn : J.note k w m w' = some J') : SessionsWithdrawn gone k J' w' := by
  have depth : w.shared.depth = c.depth := (stands_of_reach hw).1
  have inner : w.shared.innermost k = true := innermost_iff.mpr (by omega)
  obtain ⟨promise, -, -, issued, -, made⟩ := exists_of_note hn
  refine ⟨fun s hs => ?_, fun s hs => ?_, fun x hx => ?_⟩
  · rw [made]
    exact List.mem_append_left _ (h.known s hs)
  · have unborn : s ∉ bornBy k w m := fun born => promise ⟨inner, s, born, h.known s hs⟩
    have later := spare_of_apply (k := k) (by omega) hw ha s
    rw [List.count_eq_zero_of_not_mem unborn, h.spare s hs] at later
    exact Nat.le_zero.mp later
  · rw [issued, List.mem_append] at hx
    rcases hx with hx | hx
    · exact h.apart x hx
    · obtain ⟨t, lent, rfl⟩ := List.mem_map.mp hx
      rw [Option.mem_toList] at lent
      intro withdrawn
      rcases lentBy_of_apply (k := k) (by omega) ha with ⟨none, -⟩ | ⟨t', e, some, heard, -⟩
      · cases none.symm.trans lent
      · cases some.symm.trans lent
        exact absurd (h.spare t withdrawn) (Nat.ne_of_gt (spare_of_lent hw ha heard))

/-- **What nobody has who could lend it is not lent again**, in any run in which the remote side
does not connect it again. -/
theorem of_kept (hs : ∀ s ∈ gone, Cache.spare k s w = 0) (hk : k + 1 = c.depth)
    (hw : program.Reach (World.init c) w)
    (h : program.Kept (Journal.note k) { made := gone } w J w') :
    SessionsWithdrawn gone k J w' := by
  induction h with
  | refl => exact ⟨fun s h => h, hs, nofun⟩
  | move m h ha hn ih => exact ih.move hk (hw.trans h.reach) ha hn

end SessionsWithdrawn

/-! ## The next reset -/

/-- In every run from `w`, a reset of level `k` that gets its turn at once, and whose callbacks do
not raise, comes back if its clock passes the epoch; its epoch is then later than any that the level
had since `w₀`. -/
def ResetsRecover (k : Nat) (w₀ w : World Cache Frame) : Prop :=
  ∀ w', program.Reach w w' → ∀ {Memory : Type} (O : Outside Memory Query Reply)
    (reads : Memory → Nat) (σ : Nat → Nat), Clocked σ k O reads → ∀ mem i below,
    w'.stack i = .call (.reset k) :: below → 0 < w'.shared.keepers →
    (w'.shared.level k).resetting = false →
    (∃ j, reads mem ≤ j ∧ (w'.shared.level k).epoch < σ j) →
    program.Comes O i (fun _ w₁ => ∃ e, w₁.stack i = .over (.reading e) :: below ∧
      (w₁.shared.level k).epoch = e ∧ (w₁.shared.level k).resetting = false ∧
      ∀ w₂, program.Reach w₀ w₂ → program.Reach w₂ w' → (w₂.shared.level k).epoch < e) mem w'

theorem recovers (hk : k < limits.length)
    (hw : program.Reach (World.init (.ofLimits limits shared)) w) :
    ResetsRecover k (World.init (.ofLimits limits shared)) w := by
  intro w' h Memory O reads σ hO mem i below hst keepers free some
  have depth := (EpochsPaced.of_reach hk (hw.trans h)).range
  obtain ⟨j, first⟩ := exists_firstPast some
  refine ((draws hO hst keepers depth free).stores j first).imp ?_
  rintro mem' w₁ ⟨top, epoch, free', -⟩
  refine ⟨σ j, top, epoch, free', fun w₂ h₂ h' => ?_⟩
  exact Nat.lt_of_le_of_lt (epoch_le_of_reach hk h₂ h') first.passes

end

/-- **A reset is all or nothing.** Take any state of a stack that a run comes to, and any outcomes
of the callbacks of a reset of its innermost level: the shared connection, the readings of the clock
up to one that raises or passes the epoch, and the closes. The reset comes to one of the ends in
`ResetOutcome`.

* A raise before the epoch is stored leaves everything as it was, so a clean handle of the present
  epoch still goes back to the pool.
* A raise of a close comes with a later epoch stored, and with nothing idle, the slots of all that
  was idle free. None of that is ever lent again by the level, in any run, as long as sessions which
  the remote side connects are new.
* Either way the turn is given back, and later resets that nothing breaks come back, with an epoch
  later than any before. -/
theorem all_or_nothing {limits : List Limits} {shared : Bool} {k : Nat}
    (hk : k + 1 = limits.length) {w : World Cache Frame}
    (hw : program.Reach (World.init (.ofLimits limits shared)) w) {i : Nat} {below : List Frame}
    (hst : w.stack i = .call (.reset k) :: below) (keepers : 0 < w.shared.keepers)
    (free : (w.shared.level k).resetting = false) (o : Course)
    (halts : ∃ n, ∀ e, o.reading n = .ok e → (w.shared.level k).epoch < e) :
    program.Comes o.outside i (fun log w' => ∃ r, w' = w.update i w'.shared (.over r :: below) ∧
      ResetOutcome o k w.shared log w'.shared r ∧
      (w'.shared.level k).resetting = false ∧
      (∀ e, ResetSwept k e w.shared w'.shared → ∀ J J' w'',
        program.Kept (Journal.note k) {} (World.init (.ofLimits limits shared)) J w →
        program.Kept (Journal.note k) { made := (w.shared.level k).pool.idle } w' J' w'' →
        ∀ x ∈ J'.issued, x.session ∉ (w.shared.level k).pool.idle) ∧
      ResetsRecover k (World.init (.ofLimits limits shared)) w') [] w := by
  have depth : ∀ {w}, program.Reach (World.init (.ofLimits limits shared)) w →
      w.shared.depth = limits.length :=
    fun hw => (stands_of_reach hw).1.trans (depth_ofLimits limits shared)
  have alive := pool_of_keepers (j := k) hw keepers (by omega)
  have covered := idle_le_allocated (by omega) hw alive
  have leads := o.leads_reset (hk.trans (depth hw).symm) keepers free covered halts
  refine (leads w i below hst rfl).and_reach.imp ?_
  rintro log w' ⟨reach, f, hw', r, rfl, outcome⟩
  have reached := hw.trans reach
  have inner : w'.shared.innermost k = true := by
    rw [innermost_iff, depth reached]
    omega
  refine ⟨r, hw', outcome, outcome.free free, ?_, recovers (by omega) reached⟩
  intro e all J J' w'' before later
  have spent := JournalSessions.of_kept (by omega) before
  have withdrawn : ∀ s ∈ (w.shared.level k).pool.idle, spare k s w' = 0 := by
    intro s hs
    rw [hw']
    exact all.spare spent hst inner hs
  exact (SessionsWithdrawn.of_kept withdrawn (hk.trans (depth_ofLimits limits shared).symm) reached
    later).apart

/-- A session is connected, lent and given back, and a reset is about to start. -/
def aboutToReset : List (Move Op Reply) :=
  let run (n : Nat) : List (Move Op Reply) := List.replicate n (.run 0 (.at 0))
  List.flatten [
    [.spawn, .enter 0 .getSession], run 4, [.answer 0 (.got 3), .run 0 (.at 0), .collect 0],
    .enter 0 (.close 0) :: run 6, [.collect 0, .enter 0 (.reset 0)]]

/-- No connection is in use, and the clock raises. -/
def clockBreaks : Course where
  shared  := .ok false
  renewal := .ok ()
  reading := fun _ => .error "clock blew up"
  close   := fun _ => .ok none

/-- The clock counts its readings, from 0; the first close raises. -/
def closeBreaks : Course where
  shared  := .ok false
  renewal := .ok ()
  reading := .ok
  close   := fun _ => .error "close blew up"

theorem all_or_nothing_aboutToReset : ∃ J w,
    program.keep? (Journal.note 0) {} (World.init (.ofLimits [{}] true)) aboutToReset =
      some (J, w) ∧ (w.shared.level 0).pool.idle = [3] ∧
    program.Comes clockBreaks.outside 0 (fun log w' => log = [.isShared, .clock 0] ∧
      w'.stack 0 = [.over (.raised "clock blew up")] ∧ (w'.shared.level 0).epoch = 0 ∧
      (w'.shared.level 0).pool.idle = [3]) [] w ∧
    program.Comes closeBreaks.outside 0 (fun log w' =>
      log = [.isShared, .clock 0, .clock 0, .close 3] ∧
      w'.stack 0 = [.over (.raised "close blew up")] ∧ (w'.shared.level 0).epoch = 1 ∧
      (w'.shared.level 0).pool.idle = [] ∧ (w'.shared.level 0).pool.allocated = 0) [] w := by
  obtain ⟨J, w, run, hst, keepers, free, shares, epoch, idle, slots⟩ : ∃ J w,
      program.keep? (Journal.note 0) {} (World.init (.ofLimits [{}] true)) aboutToReset =
        some (J, w) ∧ w.stack 0 = [.call (.reset 0)] ∧ 0 < w.shared.keepers ∧
      (w.shared.level 0).resetting = false ∧ w.shared.shared = true ∧
      (w.shared.level 0).epoch = 0 ∧ (w.shared.level 0).pool.idle = [3] ∧
      (w.shared.level 0).pool.allocated = 1 :=
    ⟨_, _, rfl, rfl, by decide, rfl, rfl, rfl, rfl, rfl⟩
  have reach := (Program.kept_of_keep? run).reach
  have present := World.lt_length_of_stack hst
  refine ⟨J, w, run, idle, ?_, ?_⟩
  · refine (all_or_nothing (k := 0) rfl reach hst keepers free clockBreaks ⟨0, nofun⟩).imp ?_
    rintro log w' ⟨r, hw', outcome, -⟩
    cases outcome with
    | askingRaised _ raises => cases raises
    | renewalRaised _ inUse => cases inUse
    | closeRaised _ _ reading | done _ _ reading => cases reading
    | @readingRaised asked n _ message opened behind raises nothing =>
      have none : n = 0 := by
        by_contra some
        obtain ⟨e, -, reading⟩ := behind 0 (Nat.pos_of_ne_zero some)
        cases reading
      subst none
      cases raises
      cases opened with
      | unshared without => cases shares.symm.trans without
      | renewed _ inUse => cases inUse
      | unused =>
        refine ⟨rfl, ?_, ?_, ?_⟩
        · rw [hw', World.stack_update_self present]
        · rw [nothing.same]
          exact epoch
        · rw [nothing.same]
          exact idle
  · have passes : ∀ e, closeBreaks.reading 1 = .ok e → (w.shared.level 0).epoch < e := by
      rintro e ⟨⟩
      rw [epoch]
      exact Nat.zero_lt_one
    refine (all_or_nothing (k := 0) rfl reach hst keepers free closeBreaks ⟨1, passes⟩).imp ?_
    rintro log w' ⟨r, hw', outcome, -⟩
    cases outcome with
    | askingRaised _ raises => cases raises
    | renewalRaised _ inUse => cases inUse
    | readingRaised _ _ raises => cases raises
    | done _ _ _ quiet =>
      rw [idle] at quiet
      cases quiet 0 Nat.zero_lt_one
    | @closeRaised asked n _ s torn rest _ message opened behind reading queue _ raises all =>
      cases reading
      have second : n = 1 := by
        have later : (w.shared.level 0).epoch < n := all.later
        rw [epoch] at later behind
        by_contra more
        obtain ⟨e, le, reading⟩ := behind 1 (by omega)
        cases reading
        exact absurd le (by decide)
      subst second
      rw [idle] at queue
      cases torn with
      | cons t torn =>
        have none : [] = torn ++ s :: rest := (List.cons.inj queue).2
        exact absurd none (by simp)
      | nil =>
        cases queue
        cases raises
        cases opened with
        | unshared without => cases shares.symm.trans without
        | renewed _ inUse => cases inUse
        | unused =>
          have left := all.allocated
          rw [idle, slots] at left
          refine ⟨rfl, ?_, all.epoch, all.idle, Nat.add_right_cancel left⟩
          rw [hw', World.stack_update_self present]

end Lending.Cache
