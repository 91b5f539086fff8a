import TransactionalMemory.Proofs.Segments

/-! # What becomes of a call

A call that only looks changes nothing but what its context remembers of its reads (`Scope.Looks`).  A write
is logged, under a slot that the context holds or under one that it takes, or nothing happens
(`Scope.Writes`).  A commit leaves all as it is, or it stores all writes and gives the slots back, or it
meets a fault and stops (`Scope.Commits`).

A commit that stops has stored the logged writes up to the first field that does not exist, or all of them
if it is the stamp that is refused, and the slots stay held (`Scope.Stopped`).
-/

namespace TransactionalMemory

/-! ## Storing up to a missing field -/

/-- Which of the logged writes are stored by a commit that meets a fault. -/
inductive StoredUpTo (m : Memory) (entries : List WriteEntry) (f : Fault) : List WriteEntry → Prop where
  | nothing : StoredUpTo m entries f []
  /-- All before the first one whose field does not exist. -/
  | missing (stored : List WriteEntry) (e : WriteEntry) (rest : List WriteEntry)
      (split : entries = stored ++ e :: rest) (exist : ∀ e' ∈ stored, m.Has e'.location)
      (missing : ¬ m.Has e.location)
      (fault : f = .outOfBounds (m.fields e.location.object).size e.location.offset) :
      StoredUpTo m entries f stored
  /-- All, if the stamp is refused, or if the commit is done and cannot be counted. -/
  | all (exist : ∀ e ∈ entries, m.Has e.location) (fault : f = .stampTooLarge ∨ f = .overflow) :
      StoredUpTo m entries f entries

theorem StoredUpTo.subset {m : Memory} {entries stored : List WriteEntry} {f : Fault}
    (h : StoredUpTo m entries f stored) : ∀ e ∈ stored, e ∈ entries := by
  cases h with
  | nothing => exact List.forall_mem_nil _
  | missing stored e rest split =>
    rw [split]
    exact fun _ => List.mem_append_left _
  | all => exact fun _ => id

/-- Storing logged writes stops at the first field that does not exist, and what was stored stays. -/
theorem RedoLog.store_of_missing : ∀ {entries : List WriteEntry} {m : Memory},
    ¬ (∀ e ∈ entries, m.Has e.location) → ∃ stored e rest m',
      entries = stored ++ e :: rest ∧ (∀ e' ∈ stored, m.Has e'.location) ∧ ¬ m.Has e.location ∧
      store entries m = (.error (.outOfBounds (m.fields e.location.object).size e.location.offset), m') ∧
      m'.words = overlay stored m.words ∧ m.SameShape m'
  | [], _, h => absurd (List.forall_mem_nil _) h
  | e :: entries, m, h => by
    by_cases exist : m.Has e.location
    · obtain ⟨middle, put, words, shape⟩ := Memory.store_of_has exist e.value.encode
      have later : ¬ ∀ e' ∈ entries, middle.Has e'.location := fun others =>
        h (List.forall_mem_cons.mpr ⟨exist, fun e' member => (shape.has _).mp (others e' member)⟩)
      obtain ⟨stored, e', rest, final, split, before, missing, stops, finalWords, finalShape⟩ :=
        store_of_missing later
      refine ⟨e :: stored, e', rest, final, by rw [split, List.cons_append], ?_, by rwa [← shape.has], ?_,
        by rw [finalWords, words, overlay_cons], fun address => (finalShape address).trans (shape address)⟩
      · exact List.forall_mem_cons.mpr ⟨exist, fun e member => (shape.has _).mp (before e member)⟩
      · rw [RedoLog.store, put, ← shape]
        exact stops
    · refine ⟨[], e, entries, m, rfl, List.forall_mem_nil _, exist, ?_, rfl, fun _ => rfl⟩
      unfold Memory.Has at exist
      simp only [RedoLog.store, Memory.store, dif_neg exist]

/-- The only fault of a counter is that it is full. -/
theorem Tally.eq_overflow_of_checked {t : Tally} {f : Fault} (full : t.checked = .error f) :
    f = .overflow := by
  unfold checked at full
  split at full <;> cases full
  rfl

namespace Scope

variable {s s' : Scope} {l : Location} {kind : Kind} {v : Value} {slot stamp : Nat}

/-! ## Looking -/

/-- Nothing has changed but what the context remembers of its reads. -/
def Looks (s s' : Scope) : Prop :=
  ∃ upper reads window, s' = ⟨s.runtime, { s.context with upper, reads, window }⟩

namespace Looks

protected theorem refl (s : Scope) : Looks s s := ⟨_, _, _, rfl⟩

theorem of_upper {upper : Nat} (looks : Looks ⟨s.runtime, { s.context with upper }⟩ s') : Looks s s' := by
  obtain ⟨upper, reads, window, same⟩ := looks
  exact ⟨upper, reads, window, same⟩

theorem finishRead (s : Scope) : Looks s (s.finishRead l slot stamp v).2 := by
  unfold Scope.finishRead
  split
  · unfold Context.logRead
    split <;> exact ⟨_, _, _, rfl⟩
  · exact .refl s

theorem slide (s : Scope) : Looks s (s.slide l slot stamp v).2 := by
  unfold Scope.slide
  dsimp only
  split
  · exact .refl s
  · exact .refl s
  · exact .of_upper (finishRead _)

theorem tryExtend {next : AfterExtension} {failed : Scope → Progress × Scope}
    (otherwise : Looks s (failed s).2) : Looks s (s.tryExtend next failed).2 := by
  unfold Scope.tryExtend
  dsimp only
  split
  · exact .refl s
  · exact .refl s
  · exact otherwise

theorem loadHeld (s : Scope) : Looks s (s.loadHeld l kind).2 := by
  unfold Scope.loadHeld
  split <;> exact .refl s

theorem loadFree (s : Scope) : Looks s (s.loadFree l kind slot).2 := by
  rw [Scope.loadFree_eq]
  split
  · exact .refl s
  · exact .refl s
  · exact .refl s
  · split
    · exact .refl s
    · split
      · exact .finishRead s
      · split
        · exact .slide s
        · exact .tryExtend (.refl s)

theorem load (s : Scope) : Looks s (s.load l kind).2 := by
  unfold Scope.load
  split
  · exact .refl s
  · dsimp only
    split
    · exact .loadFree s
    · split
      · exact .refl s
      · split
        · exact .loadHeld s
        · exact .tryExtend (.refl s)

theorem probe (s : Scope) : Looks s (s.probe l).2 := by
  rw [Leads.probe_snd]
  exact .refl s

theorem read (s : Scope) : Looks s (s.read l kind).2 := by
  unfold Scope.read
  split
  · next s₁ done =>
    have same := Leads.probe_snd s l
    rw [done] at same
    rw [show s₁ = s from same]
    exact .load s
  · exact .probe s

theorem afterExtension (s : Scope) (next : AfterExtension) : Looks s (s.afterExtension next).2 := by
  cases next with
  | answer => exact .refl s
  | loadHeld l kind => exact .loadHeld s
  | recheck l kind slot stamp v =>
    rw [afterExtension_recheck]
    split
    · exact .refl s
    · split
      · exact .finishRead s
      · exact .loadFree s

theorem extended (s : Scope) (candidate : Nat) (next : AfterExtension) :
    Looks s (s.resume (.extend candidate next)).2 :=
  .of_upper (afterExtension ⟨s.runtime, { s.context with upper := candidate }⟩ next)

end Looks

/-! ## Writing -/

/-- One more write is logged under a slot that is held. -/
structure Logged (s : Scope) (l : Location) (v : Value) (s' : Scope) : Prop where
  active : s.context.phase = .active
  phase : s'.context.phase = s.context.phase
  runtime : s'.runtime = s.runtime
  held : s.runtime.table.word (s.runtime.table.slotOf l) = .held s.context.owner
  logged : s.context.writes.append (s.runtime.table.slotOf l) l v none = .ok s'.context.writes

/-- What becomes of a write: it is logged, or all is as before, or its slot is taken and it is logged,
    but the attempt may not go on. -/
inductive Writes (s : Scope) (l : Location) (v : Value) (p : Progress × Scope) : Prop where
  | none (same : p.2 = s) (undone : p.1 ≠ .answered .done)
  | log (logged : Logged s l v p.2) (done : p.1 = .answered .done)
  | take (stamp : Nat) (taken : Segment.Taken s l v stamp p.2)
      (told : p.1 = .answered .done ∨ (∃ f, p.1 = .faulted f) ∨ ∃ e c, p.1 = .standing e (.abort c .access))

theorem writes_writeTaken {t : Scope} (active : s.context.phase = .active)
    (free : s.runtime.table.word (s.runtime.table.slotOf l) = .free stamp)
    (runtime : t.runtime = { s.runtime with
      table := s.runtime.table.set (s.runtime.table.slotOf l) (.held s.context.owner) })
    (context : t.context = s.context) :
    Writes s l v (t.writeTaken l (s.runtime.table.slotOf l) stamp v) := by
  obtain ⟨writes, logged⟩ := RedoLog.append_some s.context.writes (s.runtime.table.slotOf l) l v stamp
  have taken : Segment.Taken s l v stamp { t with context := { t.context with writes } } :=
    ⟨free, runtime, by rw [context], active, by rw [context], logged⟩
  unfold Scope.writeTaken
  rw [context, logged]
  rw [context] at taken
  dsimp only
  split
  · exact .take stamp taken (Or.inr (Or.inr ⟨_, _, rfl⟩))
  · split
    · split
      · exact .take stamp taken (Or.inr (Or.inl ⟨_, rfl⟩))
      · exact .take stamp taken (Or.inr (Or.inr ⟨_, _, rfl⟩))
      · split
        · exact .take stamp ⟨taken.free, taken.runtime, taken.owner, active, taken.phase, taken.logged⟩
            (Or.inl rfl)
        · exact .take stamp taken (Or.inl rfl)
    · exact .take stamp taken (Or.inl rfl)

theorem writes_write (s : Scope) : Writes s l v (s.write l v) := by
  obtain ⟨slot, here⟩ : ∃ slot, s.runtime.table.slotOf l = slot := ⟨_, rfl⟩
  have inside : slot < s.runtime.table.size := here ▸ LockTable.slotOf_lt_size _ l
  unfold Scope.write
  rw [here]
  cases ended : s.obstacle? with
  | some a =>
    refine .none rfl fun done => ?_
    unfold obstacle? at ended
    split at ended <;> cases ended <;> cases done
  | none =>
    have active : s.context.phase = .active := Leads.obstacle?_eq_none ended
    dsimp only
    rw [LockTable.acquire_of_lt inside]
    cases word : s.runtime.table.word slot with
    | free stamp =>
      subst here
      exact writes_writeTaken active word rfl rfl
    | held holder =>
      by_cases own : holder = s.context.owner
      · simp only [own, ↓reduceIte]
        split
        · exact .none rfl nofun
        · next writes logged =>
          subst here
          exact .log ⟨active, rfl, rfl, own ▸ word, logged⟩ rfl
      · simp only [own, ↓reduceIte]
        exact .none rfl nofun

/-! ## Committing -/

/-- The attempt goes on as before, and nothing is stored.  A commit that fails has moved the clock. -/
structure Same (s s' : Scope) : Prop where
  memory : s'.runtime.memory = s.runtime.memory
  table : s'.runtime.table = s.runtime.table
  clock : s'.runtime.clock = s.runtime.clock ∨ s'.runtime.clock = s.runtime.clock.advance.2
  writes : s'.context.writes = s.context.writes
  phase : s'.context.phase = s.context.phase

/-- The attempt has stored its writes and given its slots back, under the next stamp if it wrote. -/
structure Committed (s s' : Scope) : Prop where
  active : s.context.phase = .active
  phase : s'.context.phase = .committed
  exist : ∀ e ∈ s.context.writes.entries, s.runtime.memory.Has e.location
  words : s'.runtime.memory.words = overlay s.context.writes.entries s.runtime.memory.words
  shape : s.runtime.memory.SameShape s'.runtime.memory
  given : RedoLog.GivenBack s.context.writes (fun _ => s'.runtime.clock.now) s.runtime.table s'.runtime.table
  clock : s'.runtime.clock.now = s.runtime.clock.now + if s.context.writes.isEmpty then 0 else 1
  empty : s'.context.writes = {}

/-- A commit has met a fault while it stored the writes, or right after that: the attempt is active as
    before and holds its slots, and what was stored stays. -/
structure Stopped (s : Scope) (f : Fault) (s' : Scope) : Prop where
  active : s.context.phase = .active
  phase : s'.context.phase = s.context.phase
  table : s'.runtime.table = s.runtime.table
  writes : s'.context.writes = s.context.writes
  clock : s'.runtime.clock = s.runtime.clock.advance.2
  shape : s.runtime.memory.SameShape s'.runtime.memory
  stored : ∃ stored, StoredUpTo s.runtime.memory s.context.writes.entries f stored ∧
    s'.runtime.memory.words = overlay stored s.runtime.memory.words

/-- What becomes of a commit of an active attempt. -/
inductive Commits (s : Scope) (site : AbortSite) (p : Progress × Scope) : Prop where
  | same (same : Same s p.2)
      (told : (∃ f, p.1 = .faulted f) ∨ ∃ e, p.1 = .standing e (.failCommit site))
  /-- A full counter is a fault of a commit that has happened. -/
  | committed (committed : Committed s p.2)
      (told : p.1 = .answered (.verdict true) ∨ p.1 = .faulted .overflow)
  | stopped (f : Fault) (stopped : Stopped s f p.2) (told : p.1 = .faulted f)

theorem Looks.same (looks : Looks s s') : Same s s' := by
  obtain ⟨upper, reads, window, rfl⟩ := looks
  exact ⟨rfl, rfl, Or.inl rfl, rfl, rfl⟩

theorem finishCommit_told (s : Scope) (wroteNothing : Bool) :
    (s.finishCommit wroteNothing).1 = .answered (.verdict true) ∨
      (s.finishCommit wroteNothing).1 = .faulted .overflow := by
  unfold finishCommit
  dsimp only
  split
  · next f counted => exact Or.inr (by rw [Tally.eq_overflow_of_checked counted])
  · exact Or.inl rfl

namespace Holding

theorem commits_storeWrites (h : s.Holding) (site : AbortSite) (active : s.context.phase = .active)
    (wrote : s.context.writes.isEmpty = false) {clock : Clock} (ticked : clock = s.runtime.clock.advance.2)
    (next : clock.now = s.runtime.clock.now + 1) :
    Commits s site (Scope.storeWrites ⟨{ s.runtime with clock }, s.context⟩ clock.now) := by
  simp only [Scope.storeWrites, RedoLog.commit]
  by_cases exist : ∀ e ∈ s.context.writes.entries, s.runtime.memory.Has e.location
  · obtain ⟨m', whole, words, shape⟩ := RedoLog.store_of_has exist
    rw [whole]
    by_cases small : clock.now < lockBit
    · obtain ⟨t', released, given⟩ := h.wellFormed.release h.held small
      simp only [released]
      obtain ⟨p, tally, finished, -, -⟩ := Scope.finishCommit_eq
        ⟨{ s.runtime with clock, table := t', memory := m' }, { s.context with writes := {} }⟩ false
      have told := finishCommit_told
        ⟨{ s.runtime with clock, table := t', memory := m' }, { s.context with writes := {} }⟩ false
      rw [finished] at told ⊢
      exact .committed ⟨active, rfl, exist, words, shape, given, by rw [wrote]; exact next, rfl⟩ told
    · -- A stamp that is too large is refused for the first slot, and no slot is released.
      obtain ⟨g, heads, slots⟩ : ∃ g heads, s.context.writes.heads = g :: heads := by
        have wrote : 0 < s.context.writes.entries.length :=
          List.length_pos_iff.mpr (List.isEmpty_eq_false_iff.mp wrote)
        obtain ⟨first, head, -⟩ := h.wellFormed.chained.head?_of_entry ⟨0, wrote⟩
        exact List.exists_cons_of_ne_nil (List.ne_nil_of_mem (RedoLog.mem_heads_of_head? head))
      simp only [RedoLog.heldUnder, slots, List.map_cons, RedoLog.release, LockTable.release,
        if_pos (Nat.not_lt.mp small)]
      exact .stopped .stampTooLarge
        ⟨active, rfl, rfl, rfl, ticked, shape, _, .all exist (Or.inl rfl), words⟩ rfl
  · obtain ⟨stored, e, rest, m', split, before, missing, stops, words, shape⟩ :=
      RedoLog.store_of_missing exist
    rw [stops]
    exact .stopped _
      ⟨active, rfl, rfl, rfl, ticked, shape, stored, .missing stored e rest split before missing rfl, words⟩ rfl

theorem commits (h : s.Holding) (active : s.context.phase = .active) (site : AbortSite) :
    Commits s site (s.commit site) := by
  unfold Scope.commit
  rw [active]
  dsimp only
  cases wrote : s.context.writes.isEmpty with
  | true =>
    have empty := RedoLog.eq_empty wrote
    obtain ⟨p, tally, finished, -, -⟩ := s.finishCommit_eq true
    have told := finishCommit_told s true
    rw [if_pos rfl]
    rw [finished] at told ⊢
    refine .committed ⟨active, rfl, ?_, ?_, fun _ => rfl, ⟨rfl, fun slot => ?_⟩, by rw [wrote]; rfl, empty⟩ told
    · rw [empty]
      exact List.forall_mem_nil _
    · rw [empty]
      rfl
    · rw [empty]
      rfl
  | false =>
    obtain ⟨ticked, clock⟩ : ∃ clock, s.runtime.clock.advance.2 = clock := ⟨_, rfl⟩
    have same : Same s ⟨{ s.runtime with clock := ticked }, s.context⟩ :=
      ⟨rfl, rfl, Or.inr clock.symm, rfl, rfl⟩
    rw [if_neg Bool.false_ne_true,
      show s.runtime.clock.advance = (s.runtime.clock.advance.1, ticked) from Prod.ext rfl clock]
    dsimp only
    cases stamped : s.runtime.clock.advance.1 with
    | error f => exact .same same (Or.inl ⟨f, rfl⟩)
    | ok stamp =>
      obtain ⟨rfl, fits⟩ := eq_of_counter stamped
      have next : ticked.now = s.runtime.clock.now + 1 := clock ▸ Nat.mod_eq_of_lt fits
      have stores := h.commits_storeWrites site active wrote clock.symm next
      rw [next] at stores
      unfold commitAt
      dsimp only
      split
      · exact .same same (Or.inl ⟨_, rfl⟩)
      · split
        · exact stores
        · split
          · exact .same same (Or.inl ⟨_, rfl⟩)
          · exact stores
          · exact .same same (Or.inr ⟨_, rfl⟩)

end Holding

/-- The commit of an attempt that has ended changes nothing. -/
theorem commit_snd_of_inactive (inactive : s.context.phase ≠ .active) (site : AbortSite) :
    (s.commit site).2 = s := by
  unfold commit
  split
  · rfl
  · rfl
  · rfl
  · next active => exact absurd active inactive

/-! ## Beginning and giving up -/

/-- An attempt that has ended is not rolled back. -/
theorem rollback_of_inactive (inactive : s.context.phase ≠ .active) : s.rollback = (.ok (), s) := by
  rw [rollback, if_neg inactive]

theorem same_finishAbort_of_inactive (inactive : s.context.phase ≠ .active) (c : Conflict)
    (site : AbortSite) : Same s (s.finishAbort c site).2 := by
  unfold finishAbort
  split
  · exact (Looks.refl s).same
  · rw [rollback_of_inactive (by exact inactive)]
    cases site <;> exact ⟨rfl, rfl, Or.inl rfl, rfl, rfl⟩

theorem same_finishGiveUp (s : Scope) (reason : GiveUpReason) : Same s (s.finishGiveUp reason).2 := by
  unfold finishGiveUp
  dsimp only
  split <;> exact ⟨rfl, rfl, Or.inl rfl, rfl, rfl⟩

theorem Holding.starts (h : s.Holding) (block : Nat) (mode : Mode) :
    ∃ s', s.start block mode = (.ok (), s') ∧ Withdrawn s s' ∧ s'.context.phase = .active := by
  obtain ⟨table, given, started⟩ := h.start_eq
  exact ⟨_, started block mode, ⟨rfl, rfl, rfl, rfl, given, rfl⟩, rfl⟩

end Scope

end TransactionalMemory
