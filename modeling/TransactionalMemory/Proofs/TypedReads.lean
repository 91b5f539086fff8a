import TransactionalMemory.Proofs.LoggedReads

/-! # Typed reads

A read names the kind that it wants, whatever kind was written.  As long as the write is in the log of its own attempt,
the logged value is reinterpreted; once it is committed, the stored word is decoded.  Both give the same value of the
kind that was asked for (`typed_reads_agree_across_commit`), and so a client always finds the payload of the type that
it reads (`Value.payload?_eq_some`).
-/

namespace TransactionalMemory

variable {α ε : Type}

/-! ## Payloads -/

/-- The type of the payloads of a kind, as clients have them. -/
def Kind.Payload : Kind → Type
  | .bool => Bool
  | .char => Char
  | .i8 => Int8
  | .i16 => Int16
  | .i32 => Int32
  | .i64 => Int64
  | .u8 => UInt8
  | .u16 => UInt16
  | .u32 | .f32 => UInt32
  | .u64 | .f64 | .ref => UInt64

/-- A payload that a client writes, with its tag. -/
def Kind.tag : (k : Kind) → k.Payload → Value
  | .bool, b => .bool b
  | .char, c => .char c
  | .i8, n => .i8 n
  | .i16, n => .i16 n
  | .i32, n => .i32 n
  | .i64, n => .i64 n
  | .u8, n => .u8 n
  | .u16, n => .u16 n
  | .u32, n => .u32 n
  | .u64, n => .u64 n
  | .f32, bits => .f32 bits
  | .f64, bits => .f64 bits
  | .ref, id => .ref id

/-- The payload that a client reads from a value, read as its kind; there is none if the tag is not the one of the
    kind even so. -/
def Value.payload? (v : Value) (k : Kind) : Option k.Payload :=
  match k, v.reinterpret k with
  | .bool, .bool b => some b
  | .char, .char c => some c
  | .i8, .i8 n => some n
  | .i16, .i16 n => some n
  | .i32, .i32 n => some n
  | .i64, .i64 n => some n
  | .u8, .u8 n => some n
  | .u16, .u16 n => some n
  | .u32, .u32 n => some n
  | .u64, .u64 n => some n
  | .f32, .f32 bits => some bits
  | .f64, .f64 bits => some bits
  | .ref, .ref id => some id
  | _, _ => none

namespace Value

/-- Whatever a client has written, it finds a payload of the type that it reads. -/
theorem payload?_eq_some (v : Value) (k : Kind) : ∃ p, v.payload? k = some p ∧ k.tag p = v.reinterpret k := by
  have kind := kind_reinterpret v k
  unfold payload?
  generalize v.reinterpret k = u at kind ⊢
  subst kind
  cases u <;> exact ⟨_, rfl, rfl⟩

/-- A client reads what it has written. -/
theorem payload?_tag (k : Kind) (p : k.Payload) : (k.tag p).payload? k = some p := by
  cases k <;> rfl

/-- Decoding forgets what it has to forget at once: the value that a word gives is stored as a word that gives it
    again, also where the word is no encoding of its kind. -/
theorem decode_encode_decode (word : UInt64) (k : Kind) : decode (decode word k).encode k = decode word k := by
  have stored := (decode word k).decode_encode
  rwa [kind_decode] at stored

end Value

/-! ## Reading what was written -/

namespace Scope

variable {s s' : Scope} {l : Location} {k : Kind} {u v : Value}

/-- The attempt reads its own write from the log. -/
theorem load_of_logged (active : s.context.phase = .active)
    (wf : s.context.writes.WellFormed s.runtime.table.slotOf)
    (logged : s.context.writes.value? (s.runtime.table.slotOf l) l = some v) (k : Kind) :
    s.load l k = (.answered (.value (v.reinterpret k)), s) := by
  have free : s.obstacle? = none := by rw [obstacle?, active]
  obtain ⟨stamp, held⟩ : ∃ stamp, s.context.writes.stamp? (s.runtime.table.slotOf l) = some stamp := by
    refine Option.ne_none_iff_exists'.mp fun unheld => ?_
    cases (wf.value?_of_not_held unheld).symm.trans logged
  simp only [load, free, held, logged]

/-- A read that looks at the lock first answers with what it would have answered without. -/
theorem load_of_read (answered : s.read l k = (.answered (.value u), s')) :
    s.load l k = (.answered (.value u), s') := by
  unfold read at answered
  split at answered
  · next s₁ done =>
    have same := Leads.probe_snd s l
    rw [done] at same
    rwa [← show s₁ = s from same]
  · exact absurd (congrArg Prod.fst answered) ((s.probe_told l).1 u)

/-- A read that was answered under a slot that the context does not hold has its value from memory. -/
theorem peek_of_load (answered : s.load l k = (.answered (.value u), s'))
    (unheld : s.context.writes.stamp? (s.runtime.table.slotOf l) = none) : s.runtime.memory.peek l k = .ok u := by
  have notes : Notes _ l k _ _ _ := .load s
  rw [answered] at notes
  generalize s.runtime.table.slotOf l = slot at unheld notes
  generalize told : (Progress.answered (.value u), s') = p at notes
  cases notes with
  | nothing upper unanswered => exact absurd (congrArg Prod.fst told).symm (unanswered u)
  | own v upper held =>
    rw [RedoLog.owns, unheld] at held
    cases held
  | entry v stamp upper _ saw =>
    cases told
    exact saw.loaded

end Scope

/-- What a store of logged writes leaves in memory if it meets no fault. -/
theorem RedoLog.words_of_store {entries : List WriteEntry} {m m' : Memory}
    (stored : store entries m = (.ok (), m')) :
    m'.words = overlay entries m.words ∧ m.SameShape m' ∧ ∀ e ∈ entries, m.Has e.location := by
  by_cases exist : ∀ e ∈ entries, m.Has e.location
  · obtain ⟨m'', whole, words, shape⟩ := store_of_has exist
    cases stored.symm.trans whole
    exact ⟨words, shape, exist⟩
  · obtain ⟨_, _, _, _, -, -, -, stops, -⟩ := store_of_missing exist
    cases stored.symm.trans stops

namespace Scope

variable {s s' : Scope} {l : Location} {v : Value}

/-- The writes of an attempt are in memory, all of them. -/
structure Stored (s s' : Scope) : Prop where
  words : s'.runtime.memory.words = overlay s.context.writes.entries s.runtime.memory.words
  shape : s.runtime.memory.SameShape s'.runtime.memory
  exist : ∀ e ∈ s.context.writes.entries, s.runtime.memory.Has e.location

theorem stored_storeWrites (active : s.context.phase = .active) (stamp : Nat)
    (done : (s.storeWrites stamp).2.context.phase = .committed) : Stored s (s.storeWrites stamp).2 := by
  unfold storeWrites RedoLog.commit at done ⊢
  obtain ⟨result, m', stored⟩ : ∃ result m', RedoLog.store s.context.writes.entries s.runtime.memory = (result, m') :=
    ⟨_, _, rfl⟩
  rw [stored] at done ⊢
  cases result with
  | error f => cases active.symm.trans done
  | ok _ =>
    obtain ⟨words, shape, exist⟩ := RedoLog.words_of_store stored
    generalize RedoLog.release _ _ = released at done ⊢
    obtain ⟨result, table⟩ := released
    cases result with
    | error f => cases active.symm.trans done
    | ok _ =>
      obtain ⟨p, tally, finished, -⟩ := finishCommit_eq
        ⟨{ s.runtime with table, memory := m' }, { s.context with writes := {} }⟩ false
      dsimp only
      rw [finished]
      exact ⟨words, shape, exist⟩

/-- A commit that succeeds has stored the writes, also where it meets a full counter after that. -/
theorem stored_commit (active : s.context.phase = .active) (site : AbortSite)
    (done : (s.commit site).2.context.phase = .committed) : Stored s (s.commit site).2 := by
  unfold commit at done ⊢
  rw [active] at done ⊢
  dsimp only at done ⊢
  split at done
  · next none =>
    obtain ⟨p, tally, finished, -⟩ := s.finishCommit_eq true
    rw [if_pos none, finished]
    rw [RedoLog.isEmpty, List.isEmpty_iff] at none
    refine ⟨?_, fun _ => rfl, ?_⟩
    · rw [none]
      rfl
    · rw [none]
      exact List.forall_mem_nil _
  · next wrote =>
    rw [if_neg wrote]
    obtain ⟨result, clock, ticked⟩ : ∃ result clock, s.runtime.clock.advance = (result, clock) := ⟨_, _, rfl⟩
    rw [ticked] at done ⊢
    cases result with
    | error f => cases active.symm.trans done
    | ok stamp =>
      have stores : ∀ done, Stored s (storeWrites ⟨{ s.runtime with clock }, s.context⟩ stamp).2 := fun done =>
        have stored := stored_storeWrites (s := ⟨{ s.runtime with clock }, s.context⟩) active stamp done
        ⟨stored.words, stored.shape, stored.exist⟩
      dsimp only [commitAt] at done ⊢
      split at done
      · cases active.symm.trans done
      · split at done
        · next same =>
          rw [if_pos same]
          exact stores done
        · next later =>
          rw [if_neg later]
          split at done
          · cases active.symm.trans done
          · exact stores done
          · cases active.symm.trans done

/-- A committed value is in memory, and any kind can be read from there. -/
theorem Stored.peek (stored : Stored s s') (wf : s.context.writes.WellFormed s.runtime.table.slotOf)
    (logged : s.context.writes.value? (s.runtime.table.slotOf l) l = some v) (k : Kind) :
    s'.runtime.memory.peek l k = .ok (v.reinterpret k) := by
  rw [Memory.peek_eq_ok_iff, stored.words, RedoLog.overlay_apply wf, logged, v.reinterpret_eq_decode]
  refine ⟨?_, rfl⟩
  obtain ⟨e, member, rfl, -⟩ := (RedoLog.value?_eq_some_iff wf).mp logged
  exact (stored.shape.has _).mpr (stored.exist e member)

end Scope

/-- In every reachable state, for every value `v` that an active attempt has in its log for a location: a read of the
    location as any kind answers `v` reinterpreted as the kind, and once the attempt has committed, memory holds the
    same value of the kind, and so reads everybody who does not hold the slot.  That value is always of the kind that
    was asked for, so the client finds its payload there; a value that is read as its own kind is the one that was
    written; and what a word decodes to is stored as a word that decodes to the same, whatever the word. -/
theorem typed_reads_agree_across_commit {settings : Settings} {r : Runtime} (new : Runtime.new? settings = .ok r)
    (m : Memory) (actions : List (Action α ε)) {owner : OwnerId} {w : Worker}
    (here : ((Chronicle.start r m).run actions).system.worker? owner = some w) (active : w.context.phase = .active)
    {l : Location} {v : Value} (logged : w.context.writes.value? (r.table.slotOf l) l = some v) :
    let s := w.scope ((Chronicle.start r m).run actions).system.runtime
    (∀ k, s.load l k = (.answered (.value (v.reinterpret k)), s)) ∧
    (∀ k u s', s.read l k = (.answered (.value u), s') → u = v.reinterpret k) ∧
    (∀ site, (s.commit site).2.context.phase = .committed →
      let r' := (s.commit site).2.runtime
      ∀ k, r'.memory.peek l k = .ok (v.reinterpret k) ∧
        ∀ (c : Context) u s', c.writes.stamp? (r'.table.slotOf l) = none →
          Scope.load ⟨r', c⟩ l k = (.answered (.value u), s') → u = v.reinterpret k) ∧
    (∀ (u : Value) (k : Kind), (u.reinterpret k).kind = k ∧ u.reinterpret k = Value.decode u.encode k ∧
      ∃ p, u.payload? k = some p ∧ k.tag p = u.reinterpret k) ∧
    (∀ u : Value, Value.decode u.encode u.kind = u) ∧
    ∀ (word : UInt64) (k : Kind), Value.decode (Value.decode word k).encode k = Value.decode word k := by
  intro s
  have akin := (Chronicle.start r m).akin_run actions
  have place : s.runtime.table.slotOf = r.table.slotOf := LockTable.slotOf_congr akin.bits
  have wf : s.context.writes.WellFormed s.runtime.table.slotOf := by
    rw [place]
    exact (Chronicle.accounts_run new m actions here).tidy.writes
  rw [← place] at logged
  have loads := Scope.load_of_logged active wf logged
  refine ⟨loads, fun k u s' answered => ?_, fun site done k => ?_, fun u k => ?_, Value.decode_encode,
    Value.decode_encode_decode⟩
  · cases (loads k).symm.trans (Scope.load_of_read answered)
    rfl
  · have stored := (Scope.stored_commit active site done).peek wf logged
    refine ⟨stored k, fun c u s' unheld answered => ?_⟩
    exact Except.ok.inj ((Scope.peek_of_load answered unheld).symm.trans (stored k))
  · exact ⟨u.kind_reinterpret k, u.reinterpret_eq_decode k, u.payload?_eq_some k⟩

/-- A word with a surrogate in its low half is written and read as a character: the log and then memory answer with the
    replacement character. -/
theorem typed_reads_agree_across_commit_of_surrogate :
    let actions : List (Action Unit Unit) :=
      [.announce, .register ⟨1⟩, .act ⟨1⟩ (.call (.start 0 .regular)),
       .act ⟨1⟩ (.call (.write ⟨16, 0⟩ (.u64 0xAB0000D800)))]
    let t := (Chronicle.start smallRuntime pair).run actions
    ∃ w ∈ t.system.worker? ⟨1⟩,
      (w.scope t.system.runtime).load ⟨16, 0⟩ .char =
        (.answered (.value (.char replacementCharacter)), w.scope t.system.runtime) ∧
      ((w.scope t.system.runtime).commit .commit).1 = .answered (.verdict true) ∧
      ((w.scope t.system.runtime).commit .commit).2.runtime.memory.peek ⟨16, 0⟩ .char =
        .ok (.char replacementCharacter) := by
  intro actions t
  have found : ∃ w ∈ t.system.worker? ⟨1⟩, w.context.phase = .active ∧
      w.context.writes.value? (smallRuntime.table.slotOf ⟨16, 0⟩) ⟨16, 0⟩ = some (.u64 0xAB0000D800) ∧
      ((w.scope t.system.runtime).commit .commit).1 = .answered (.verdict true) ∧
      ((w.scope t.system.runtime).commit .commit).2.context.phase = .committed := by decide +kernel
  obtain ⟨w, here, active, logged, succeeds, done⟩ := found
  obtain ⟨loads, -, commits, -⟩ :=
    typed_reads_agree_across_commit smallRuntime_new pair actions here active logged
  have replaced : (Value.u64 0xAB0000D800).reinterpret .char = .char replacementCharacter := by decide +kernel
  have before := loads .char
  have after := (commits .commit done .char).1
  rw [replaced] at before after
  exact ⟨w, here, before, succeeds, after⟩

end TransactionalMemory
