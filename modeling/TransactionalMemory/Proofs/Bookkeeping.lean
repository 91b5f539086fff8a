import TransactionalMemory.Proofs.Configuration

/-! # Entries of the logs

What the functions of a call do to the logs of the attempt, whatever the state of the runtime.  A read that is
answered has come from under a slot that the attempt holds, and then it is not logged, or it is the next entry of
one of the two logs of reads (`Scope.Notes`).  A write that is answered is the next one of the log of writes, and
the first of an elastic attempt moves the window (`Scope.Enters`).  Everything else leaves the logs alone, until the
attempt has ended (`Context.Spares`).

Nothing is asked of the slots in the table here.  The only thing that the functions rely on is that what is logged is
under the slot of its field (`Context.Tidy`), and they keep it so.
-/

namespace TransactionalMemory

/-- All that is logged is under the slot of its field. -/
structure Context.Tidy (c : Context) (slotOf : Location → Nat) : Prop where
  writes : c.writes.WellFormed slotOf
  reads : ∀ e ∈ c.reads.entries, e.slot = slotOf e.location
  window : ∀ e ∈ c.window.entries, e.slot = slotOf e.location

/-- The logs are as they were, except that an attempt that has ended may have lost its writes. -/
structure Context.Spares (c c' : Context) : Prop where
  mode : c'.mode = c.mode
  reads : c'.reads = c.reads
  window : c'.window = c.window
  writes : c'.writes = c.writes ∨ c'.writes = {} ∧ c'.phase ≠ .active
  active : c'.phase = .active → c.phase = .active

/-- An attempt begins, and nothing is logged yet. -/
structure Context.Blank (c c' : Context) : Prop where
  reads : c'.reads = {}
  window : c'.window = c.window.clear
  writes : c'.writes = c.writes ∧ c.writes.isEmpty = true ∨ c'.writes = {}

namespace Context

variable {c c' c'' : Context} {slotOf : Location → Nat}

theorem not_isFast_of_owns (tidy : c.Tidy slotOf) {slot : Nat} (held : c.writes.owns slot = true) :
    c.isFast = false := by
  obtain ⟨e, member, -⟩ := tidy.writes.owns_iff_exists.mp held
  have wrote : c.writes.isEmpty = false := List.isEmpty_eq_false_iff.mpr (List.ne_nil_of_mem member)
  rw [isFast, wrote, Bool.and_false]

theorem not_isFast_of_appended (tidy : c.Tidy slotOf) {slot : Nat} {l : Location} {v : Value} {writes : RedoLog}
    (appended : c.writes.append slot l v none = .ok writes) : c.isFast = false := by
  by_cases held : c.writes.owns slot = true
  · exact not_isFast_of_owns tidy held
  · unfold RedoLog.append at appended
    split at appended
    · next i _ =>
      have wrote : c.writes.isEmpty = false :=
        List.isEmpty_eq_false_iff.mpr (List.length_pos_iff.mp (Nat.zero_lt_of_lt i.isLt))
      rw [isFast, wrote, Bool.and_false]
    · next head =>
      rw [RedoLog.owns, RedoLog.stamp?, head] at held
      exact absurd rfl held
    · next absent => cases absent
    · cases appended

namespace Tidy

theorem of_logs (tidy : c.Tidy slotOf) (writes : c'.writes = c.writes) (reads : c'.reads = c.reads)
    (window : c'.window = c.window) : c'.Tidy slotOf where
  writes := by rw [writes]; exact tidy.writes
  reads := by rw [reads]; exact tidy.reads
  window := by rw [window]; exact tidy.window

theorem spares (tidy : c.Tidy slotOf) (spares : c.Spares c') : c'.Tidy slotOf where
  writes := by
    rcases spares.writes with same | ⟨empty, -⟩
    · exact same ▸ tidy.writes
    · exact empty ▸ RedoLog.wellFormed_empty slotOf
  reads := by rw [spares.reads]; exact tidy.reads
  window := by rw [spares.window]; exact tidy.window

theorem blank (tidy : c.Tidy slotOf) (blank : c.Blank c') : c'.Tidy slotOf where
  writes := by
    rcases blank.writes with ⟨same, -⟩ | empty
    · exact same ▸ tidy.writes
    · exact empty ▸ RedoLog.wellFormed_empty slotOf
  reads := by rw [blank.reads]; nofun
  window := by rw [blank.window]; nofun

theorem logRead (tidy : c.Tidy slotOf) (l : Location) (stamp : Nat) :
    (c.logRead ⟨l, slotOf l, stamp⟩).Tidy slotOf := by
  have placed : ∀ {entries : List ReadEntry}, (∀ e ∈ entries, e.slot = slotOf e.location) →
      ∀ e ∈ entries ++ [⟨l, slotOf l, stamp⟩], e.slot = slotOf e.location := by
    intro entries before e member
    cases List.mem_append.mp member with
    | inl member => exact before e member
    | inr last => rw [List.mem_singleton.mp last]
  unfold Context.logRead
  split
  · refine ⟨tidy.writes, tidy.reads, placed fun e kept => tidy.window e ?_⟩
    split at kept
    · exact List.mem_of_mem_tail kept
    · exact kept
  · exact ⟨tidy.writes, placed tidy.reads, tidy.window⟩

theorem append (tidy : c.Tidy slotOf) {l : Location} {v : Value} {stamp : Option Nat} {writes : RedoLog}
    (appended : c.writes.append (slotOf l) l v stamp = .ok writes) : { c with writes }.Tidy slotOf :=
  ⟨(tidy.writes.append appended).wellFormed, tidy.reads, tidy.window⟩

theorem drainWindow (tidy : c.Tidy slotOf) : c.drainWindow.Tidy slotOf where
  writes := tidy.writes
  reads e member := by
    cases List.mem_append.mp member with
    | inl member => exact tidy.reads e member
    | inr member => exact tidy.window e member
  window := nofun

end Tidy

namespace Spares

protected theorem refl (c : Context) : c.Spares c := ⟨rfl, rfl, rfl, Or.inl rfl, id⟩

theorem of_ended (mode : c'.mode = c.mode) (reads : c'.reads = c.reads) (window : c'.window = c.window)
    (writes : c'.writes = c.writes ∨ c'.writes = {}) (ended : c'.phase ≠ .active) : c.Spares c' where
  mode := mode
  reads := reads
  window := window
  writes := writes.imp_right (⟨·, ended⟩)
  active active := absurd active ended

end Spares

end Context

namespace Scope

variable {s s' : Scope} {l : Location} {kind : Kind} {v : Value} {slot stamp upper : Nat}

/-! ## Ending and beginning an attempt -/

/-- The slots are given back and the writes forgotten, or a slot cannot be given back and the log stays as it is. -/
theorem releaseWrites_cases (s : Scope) :
    (∃ f table, s.releaseWrites = (.error f, ⟨{ s.runtime with table }, s.context⟩)) ∨
      ∃ table, s.releaseWrites =
        (.ok (), ⟨{ s.runtime with table }, { s.context with writes := {} }⟩) := by
  unfold releaseWrites RedoLog.rollback
  cases RedoLog.release s.context.writes.held s.runtime.table with
  | mk result table =>
    cases result with
    | error f => exact Or.inl ⟨f, table, rfl⟩
    | ok => exact Or.inr ⟨table, rfl⟩

theorem spares_rollback (s : Scope) : s.context.Spares s.rollback.2.context := by
  unfold rollback
  split
  · rcases s.releaseWrites_cases with ⟨f, table, released⟩ | ⟨table, released⟩
    · rw [released]
      exact .refl _
    · rw [released]
      exact .of_ended rfl rfl rfl (Or.inr rfl) nofun
  · exact .refl _

/-- An attempt that is rolled back has ended. -/
theorem ended_of_rollback (rolled : s.rollback = (.ok (), s')) : s'.context.phase ≠ .active := by
  unfold rollback at rolled
  split at rolled
  · rcases s.releaseWrites_cases with ⟨f, table, released⟩ | ⟨table, released⟩
    · rw [released] at rolled
      cases rolled
    · rw [released] at rolled
      cases rolled
      nofun
  · next inactive =>
    cases rolled
    exact inactive

theorem spares_finishAbort (s : Scope) (c : Conflict) (site : AbortSite) :
    s.context.Spares (s.finishAbort c site).2.context := by
  unfold finishAbort
  split
  · exact .refl _
  · next tally counted =>
    have spares := spares_rollback ⟨s.runtime, { s.context with tally, lastConflict := some c }⟩
    have spares : s.context.Spares _ := ⟨spares.mode, spares.reads, spares.window, spares.writes, spares.active⟩
    split
    · next failed => rwa [failed] at spares
    · next rolled =>
      rw [rolled] at spares
      cases site <;> exact spares

/-- An abort ends the attempt, if it meets no fault. -/
theorem ended_of_finishAbort {c : Conflict} {site : AbortSite}
    (active : (s.finishAbort c site).2.context.phase = .active) : ∃ f, (s.finishAbort c site).1 = .faulted f := by
  unfold finishAbort at active ⊢
  split
  · exact ⟨_, rfl⟩
  · next tally counted =>
    rw [counted] at active
    dsimp only at active
    split
    · exact ⟨_, rfl⟩
    · next rolled =>
      rw [rolled] at active
      have ended := ended_of_rollback rolled
      cases site <;> exact absurd active ended

theorem spares_finishCommit (s : Scope) (wroteNothing : Bool) {c : Context} (mode : s.context.mode = c.mode)
    (reads : s.context.reads = c.reads) (window : s.context.window = c.window)
    (writes : s.context.writes = c.writes ∨ s.context.writes = {}) :
    c.Spares (s.finishCommit wroteNothing).2.context := by
  unfold finishCommit
  dsimp only
  split <;> exact .of_ended mode reads window writes nofun

theorem spares_storeWrites (s : Scope) (stamp : Nat) : s.context.Spares (s.storeWrites stamp).2.context := by
  unfold storeWrites RedoLog.commit
  dsimp only
  cases RedoLog.store s.context.writes.entries s.runtime.memory with
  | mk stored memory =>
    cases stored with
    | error f => exact .refl _
    | ok =>
      dsimp only
      cases RedoLog.release (s.context.writes.heldUnder stamp) s.runtime.table with
      | mk released table =>
        cases released with
        | error f => exact .refl _
        | ok => exact spares_finishCommit _ false rfl rfl rfl (Or.inr rfl)

theorem spares_commitAt (s : Scope) (stamp : Nat) (site : AbortSite) :
    s.context.Spares (s.commitAt stamp site).2.context := by
  unfold commitAt
  dsimp only
  split
  · exact .refl _
  · split
    · exact s.spares_storeWrites stamp
    · split
      · exact .refl _
      · exact s.spares_storeWrites stamp
      · exact .refl _

theorem spares_commit (s : Scope) (site : AbortSite) : s.context.Spares (s.commit site).2.context := by
  unfold commit
  split
  · exact .refl _
  · exact .refl _
  · exact .refl _
  · split
    · exact spares_finishCommit s true rfl rfl rfl (Or.inl rfl)
    · dsimp only
      split
      · exact .refl _
      · next stamp _ =>
        exact spares_commitAt { s with runtime := { s.runtime with clock := s.runtime.clock.advance.2 } } stamp site

theorem spares_publish (s : Scope) : s.context.Spares s.publish.2.context := by
  obtain ⟨published, same⟩ := s.publish_eq
  rw [same]
  exact ⟨rfl, rfl, rfl, Or.inl rfl, id⟩

theorem spares_finishGiveUp (s : Scope) (reason : GiveUpReason) :
    s.context.Spares (s.finishGiveUp reason).2.context := by
  unfold finishGiveUp
  dsimp only
  split <;> exact ⟨rfl, rfl, rfl, Or.inl rfl, id⟩

theorem start_cases (s : Scope) (block : Nat) (mode : Mode) :
    (∃ f s', s.start block mode = (.error f, s') ∧ s.context.Spares s'.context) ∨
      ∃ s', s.start block mode = (.ok (), s') ∧ s.context.Blank s'.context := by
  unfold start
  split
  · next nothing => exact Or.inr ⟨_, rfl, rfl, rfl, Or.inl ⟨rfl, nothing⟩⟩
  · rcases s.releaseWrites_cases with ⟨f, table, released⟩ | ⟨table, released⟩
    · rw [released]
      exact Or.inl ⟨f, _, rfl, .refl _⟩
    · rw [released]
      exact Or.inr ⟨_, rfl, rfl, rfl, Or.inr rfl⟩

/-! ## Reading -/

/-- The field has the value now, and the slot is free with the stamp. -/
structure Saw (s : Scope) (l : Location) (kind : Kind) (slot stamp : Nat) (v : Value) : Prop where
  loaded : s.runtime.memory.peek l kind = .ok v
  word : s.runtime.table.word slot = .free stamp

/-- What is left to do of a read under a slot that stands before the bound of the snapshot moves. -/
def Intends (s : Scope) (l : Location) (kind : Kind) (slot : Nat) : AfterExtension → Prop
  | .answer => False
  | .loadHeld k kind' => k = l ∧ kind' = kind ∧ s.context.writes.owns slot = true
  | .recheck k kind' slot' stamp v =>
    k = l ∧ kind' = kind ∧ slot' = slot ∧ s.context.writes.stamp? slot = none ∧ s.Saw l kind slot stamp v

/-- The context with another bound of the snapshot. -/
def withBound (s : Scope) (upper : Nat) : Scope := { s with context := { s.context with upper } }

/-- What a read makes of the logs: no value is answered and nothing is logged, or the value comes from under a slot that
    is held and nothing is logged either, or the read is logged, with a stamp that the slot was seen to have
    together with the value. -/
inductive Notes (s : Scope) (l : Location) (kind : Kind) (slot : Nat) (seen : Nat → Value → Prop) :
    Progress × Scope → Prop
  | nothing {a : Progress} (upper : Nat) (unanswered : ∀ v, a ≠ .answered (.value v))
      (stands : ∀ e rest, a = .standing e rest → (∃ c, rest = .abort c .access) ∨
        ∃ candidate next, rest = .extend candidate next ∧ s.Intends l kind slot next) :
      Notes s l kind slot seen (a, s.withBound upper)
  | own (v : Value) (upper : Nat) (held : s.context.writes.owns slot = true) :
      Notes s l kind slot seen (.answered (.value v), s.withBound upper)
  | entry (v : Value) (stamp upper : Nat) (unheld : s.context.writes.stamp? slot = none) (saw : seen stamp v) :
      Notes s l kind slot seen
        (.answered (.value v), ⟨s.runtime, (s.withBound upper).context.logRead ⟨l, slot, stamp⟩⟩)

namespace Notes

variable {seen : Nat → Value → Prop} {p : Progress × Scope}

theorem of_bound (notes : Notes (s.withBound upper) l kind slot seen p) : Notes s l kind slot seen p := by
  cases notes with
  | nothing upper unanswered stands =>
    refine .nothing upper unanswered fun e rest standing => ?_
    rcases stands e rest standing with aborts | ⟨candidate, next, suspended, intends⟩
    · exact Or.inl aborts
    · refine Or.inr ⟨candidate, next, suspended, ?_⟩
      cases next with
      | recheck k kind' slot' stamp v =>
        obtain ⟨field, same, place, unheld, saw⟩ := intends
        exact ⟨field, same, place, unheld, saw.loaded, saw.word⟩
      | _ => exact intends
  | own v upper held => exact .own v upper held
  | entry v stamp upper unheld saw => exact .entry v stamp upper unheld saw

theorem mono {seen' : Nat → Value → Prop} (notes : Notes s l kind slot seen p)
    (more : ∀ stamp v, seen stamp v → seen' stamp v) : Notes s l kind slot seen' p := by
  cases notes with
  | nothing upper unanswered stands => exact .nothing upper unanswered stands
  | own v upper held => exact .own v upper held
  | entry v stamp upper unheld saw => exact .entry v stamp upper unheld (more stamp v saw)

theorem stay {a : Progress} (unanswered : ∀ v, a ≠ .answered (.value v)) (running : ∀ e rest, a ≠ .standing e rest) :
    Notes s l kind slot seen (a, s) :=
  .nothing s.context.upper unanswered fun e rest stands => absurd stands (running e rest)

theorem fault (f : Fault) : Notes s l kind slot seen (.faulted f, s) :=
  .stay (fun _ => Progress.noConfusion) fun _ _ => Progress.noConfusion

theorem abort (s : Scope) (c : Conflict) : Notes s l kind slot seen (s.abort c .access) := by
  refine .nothing s.context.upper (fun _ => Progress.noConfusion) ?_
  rintro e rest ⟨⟩
  exact Or.inl ⟨c, rfl⟩

theorem tryExtend {next : AfterExtension} (intends : s.Intends l kind slot next) :
    Notes s l kind slot seen (s.tryExtend next fun s => s.abort .extendFailed .access) := by
  unfold Scope.tryExtend
  dsimp only
  split
  · exact .fault _
  · refine .nothing s.context.upper (fun _ => Progress.noConfusion) ?_
    rintro e rest ⟨⟩
    exact Or.inr ⟨_, next, rfl, intends⟩
  · exact .abort s _

section

variable (unheld : s.context.writes.stamp? slot = none)

include unheld

theorem finishRead (saw : seen stamp v) : Notes s l kind slot seen (s.finishRead l slot stamp v) := by
  unfold Scope.finishRead
  split
  · exact .entry v stamp s.context.upper unheld saw
  · exact .fault _

theorem slide (saw : seen stamp v) : Notes s l kind slot seen (s.slide l slot stamp v) := by
  unfold Scope.slide
  dsimp only
  split
  · exact .fault _
  · exact .abort s _
  · exact of_bound (finishRead (s := s.withBound s.runtime.clock.now) unheld saw)

theorem loadFree (inside : slot < s.runtime.table.size) :
    Notes s l kind slot (s.Saw l kind slot) (s.loadFree l kind slot) := by
  rw [Scope.loadFree_eq]
  rw [LockTable.check_of_lt inside]
  cases word : s.runtime.table.word slot with
  | held holder =>
    dsimp only
    split
    · exact .fault _
    · exact .abort s _
    · exact .fault _
    · next looked => split at looked <;> cases looked
  | free stamp =>
    dsimp only
    split
    · exact .fault _
    · next v loaded =>
      have saw : s.Saw l kind slot stamp v := ⟨loaded, word⟩
      split
      · exact .finishRead unheld saw
      · split
        · exact .slide unheld saw
        · exact .tryExtend ⟨rfl, rfl, rfl, unheld, saw⟩

end

theorem loadHeld (held : s.context.writes.owns slot = true) :
    Notes s l kind slot seen (s.loadHeld l kind) := by
  unfold Scope.loadHeld
  split
  · exact .fault _
  · exact .own _ s.context.upper held

theorem obstacle {a : Progress} (ended : s.obstacle? = some a) : Notes s l kind slot seen (a, s) := by
  unfold obstacle? at ended
  refine .stay (fun v answered => ?_) fun e rest stands => ?_
  · split at ended <;> cases ended <;> cases answered
  · split at ended <;> cases ended <;> cases stands

theorem load (s : Scope) : Notes s l kind (s.runtime.table.slotOf l)
    (s.Saw l kind (s.runtime.table.slotOf l)) (s.load l kind) := by
  have inside := s.runtime.table.slotOf_lt_size l
  unfold Scope.load
  generalize s.runtime.table.slotOf l = slot at inside ⊢
  split
  · next ended => exact .obstacle ended
  · dsimp only
    split
    · next unheld => exact .loadFree unheld inside
    · next stamp held =>
      have owns : s.context.writes.owns slot = true := by simp [RedoLog.owns, held]
      split
      · exact .own _ s.context.upper owns
      · split
        · exact .loadHeld owns
        · exact .tryExtend ⟨rfl, rfl, owns⟩

theorem probe (s : Scope) : Notes s l kind slot seen (s.probe l) := by
  simp only [Scope.probe]
  generalize s.runtime.table.check _ _ = checked
  cases ended : s.obstacle? with
  | some a => exact .obstacle ended
  | none =>
    cases checked with
    | error f => exact .fault f
    | ok looked =>
      cases looked with
      | error contention => exact .abort s _
      | ok word =>
        refine .stay (fun v => ?_) fun _ _ => Progress.noConfusion
        rintro ⟨⟩

theorem read (s : Scope) : Notes s l kind (s.runtime.table.slotOf l)
    (s.Saw l kind (s.runtime.table.slotOf l)) (s.read l kind) := by
  unfold Scope.read
  split
  · next s₁ done =>
    have same := Leads.probe_snd s l
    rw [done] at same
    rw [show s₁ = s from same]
    exact .load s
  · exact .probe s

/-- A read that goes on after the bound has moved is logged with what it saw before, or with what it sees now. -/
theorem recheck (s : Scope) (candidate : Nat) (inside : slot < s.runtime.table.size)
    (unheld : s.context.writes.stamp? slot = none) :
    Notes s l kind slot (fun stamp' v' => s.Saw l kind slot stamp' v' ∨ stamp' = stamp ∧ v' = v)
      (s.resume (.extend candidate (.recheck l kind slot stamp v))) := by
  have notes : Notes (s.withBound candidate) l kind slot
      (fun stamp' v' => s.Saw l kind slot stamp' v' ∨ stamp' = stamp ∧ v' = v)
      ((s.withBound candidate).afterExtension (.recheck l kind slot stamp v)) := by
    rw [afterExtension_recheck]
    split
    · exact .fault _
    · split
      · exact .finishRead unheld (Or.inr ⟨rfl, rfl⟩)
      · exact mono (.loadFree unheld inside) fun _ _ saw => Or.inl ⟨saw.loaded, saw.word⟩
  exact notes.of_bound

theorem takeHeld (s : Scope) (candidate : Nat) (held : s.context.writes.owns slot = true) :
    Notes s l kind slot seen (s.resume (.extend candidate (.loadHeld l kind))) := by
  have notes : Notes (s.withBound candidate) l kind slot seen ((s.withBound candidate).loadHeld l kind) :=
    .loadHeld held
  exact notes.of_bound

end Notes

/-! ## Writing -/

/-- What a write makes of the logs: nothing, or it is logged and answered, and then the first one of an elastic attempt
    moves the window, or it is logged and the attempt is aborted. -/
inductive Enters (s : Scope) (l : Location) (slot : Nat) (v : Value) : Progress × Scope → Prop
  | nothing {a : Progress} (undone : a ≠ .answered .done)
      (stands : ∀ e rest, a = .standing e rest → ∃ c, rest = .abort c .access) : Enters s l slot v (a, s)
  | entry (runtime : Runtime) (writes : RedoLog) (stamp : Option Nat)
      (appended : s.context.writes.append slot l v stamp = .ok writes) (slow : s.context.isFast = false) :
      Enters s l slot v (.answered .done, ⟨runtime, { s.context with writes }⟩)
  | first (runtime : Runtime) (writes : RedoLog) (stamp : Nat)
      (appended : s.context.writes.append slot l v (some stamp) = .ok writes) (fast : s.context.isFast = true) :
      Enters s l slot v (.answered .done, ⟨runtime, { s.context with writes }.drainWindow⟩)
  | stale (runtime : Runtime) (writes : RedoLog) (stamp : Nat) (e : Event) (c : Conflict)
      (appended : s.context.writes.append slot l v (some stamp) = .ok writes) :
      Enters s l slot v (.standing e (.abort c .access), ⟨runtime, { s.context with writes }⟩)

namespace Enters

theorem writeTaken {s : Scope} (tidy : s.context.Tidy s.runtime.table.slotOf) {table : LockTable}
    (bits : table.bits = s.runtime.table.bits) (slot stamp : Nat) :
    Enters s l slot v (writeTaken ⟨{ s.runtime with table }, s.context⟩ l slot stamp v) := by
  obtain ⟨writes, appended⟩ := RedoLog.append_some s.context.writes slot l v stamp
  unfold Scope.writeTaken
  rw [appended]
  dsimp only
  split
  · exact .stale _ writes stamp _ _ appended
  · split
    · -- The window can be checked, because its slots are slots of the table.
      have inside : ∀ e ∈ s.context.window.entries, e.slot < table.size := by
        intro e member
        rw [tidy.window e member, LockTable.size_congr bits]
        exact s.runtime.table.slotOf_lt_size e.location
      obtain ⟨current, checked⟩ := allCurrent_ok s.context.owner writes inside
      rw [Window.validate, checked]
      cases current with
      | false => exact .stale _ writes stamp _ _ appended
      | true =>
        cases fast : s.context.isFast with
        | false => exact .entry _ writes (some stamp) appended fast
        | true => exact .first _ writes stamp appended fast
    · next regular =>
      have slow : s.context.isFast = false := by
        rw [Context.isFast, Bool.eq_false_iff.mpr regular, Bool.false_and]
      exact .entry _ writes (some stamp) appended slow

theorem write (s : Scope) (tidy : s.context.Tidy s.runtime.table.slotOf) :
    Enters s l (s.runtime.table.slotOf l) v (s.write l v) := by
  have inside := s.runtime.table.slotOf_lt_size l
  obtain ⟨slot, here⟩ : ∃ slot, s.runtime.table.slotOf l = slot := ⟨_, rfl⟩
  unfold Scope.write
  rw [here] at inside ⊢
  cases ended : s.obstacle? with
  | some a =>
    unfold obstacle? at ended
    refine .nothing (fun done => ?_) fun e rest stands => ?_
    · split at ended <;> cases ended <;> cases done
    · split at ended <;> cases ended <;> cases stands
  | none =>
    dsimp only
    rw [LockTable.acquire_of_lt inside]
    cases word : s.runtime.table.word slot with
    | free stamp => exact writeTaken tidy (LockTable.bits_set ..) slot stamp
    | held holder =>
      by_cases own : holder = s.context.owner
      · simp only [own, ↓reduceIte]
        split
        · exact .nothing Progress.noConfusion fun _ _ => Progress.noConfusion
        · next writes appended =>
          exact .entry s.runtime writes none appended (Context.not_isFast_of_appended tidy appended)
      · simp only [own, ↓reduceIte]
        refine .nothing Progress.noConfusion ?_
        rintro e rest ⟨⟩
        exact ⟨_, rfl⟩

end Enters

end Scope

end TransactionalMemory
