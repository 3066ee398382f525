import DeskLink.Proofs.Transfer.Integrity

/-!
# `DeskLink.Proofs.Transfer.Crash`: what a crash leaves to resume from

A `Happening` is an event of the engine, or a crash in the middle of one:
some of its writes are on the disk and nothing is open any more.
`resume_true` says that what `load_receive` returns after any run is true
of the partial file, as long as no frame replaces a block the saved record
still lists by other bytes (`AgreesWith`).

Without that it is not: `restart_at` cuts the partial file and forgets
hashes, and the record on the disk lists them until the next checkpoint.
When the blocks are filled with other bytes before it, a crash leaves a
file of full length under the old hashes (`resume_false`).
-/

set_option autoImplicit false

namespace DeskLink.Transfer

variable {sha : Bytes → Hash}

inductive Happening where
  | event (event : Event)
  /-- The engine stops after the first `writes` writes of the event. -/
  | crash (event : Event) (writes : Nat)

/-- The engine after a crash: what is on the disk, and nothing open. -/
def Engine.crashed (sha : Bytes → Hash) (e : Engine) (event : Event) (writes : Nat) : Engine :=
  { e with
    incoming := ∅
    disk := Lib.applyAll Disk.after e.disk ((e.handle sha event).journal.ops.take writes) }

def Engine.happen (sha : Bytes → Hash) (e : Engine) : Happening → Option Engine
  | .event event => some (e.next sha event)
  | .crash event writes => some (e.crashed sha event writes)

/-- The event agrees with the records, whether or not it is cut short. -/
def HappeningAgrees (sha : Bytes → Hash) (e : Engine) : Happening → Prop
  | .event event => AgreesWith sha e event
  | .crash event _ => AgreesWith sha e event

instance (sha : Bytes → Hash) (e : Engine) (a : Happening) : Decidable (HappeningAgrees sha e a) :=
  match a with
  | .event event => inferInstanceAs (Decidable (AgreesWith sha e event))
  | .crash event _ => inferInstanceAs (Decidable (AgreesWith sha e event))

/-- What `load_receive` returns for `id`: as many hashes as blocks it says
are done, the partial file has those blocks, and each has its hash. -/
def LoadsTrue (sha : Bytes → Hash) (d : Disk) (id : String) : Prop :=
  ∀ c hashes, (loadReceive ⟨d, []⟩ id).2 = some (c, hashes) →
    c.blocksDone = hashes.length ∧ blockStart c.totalSize hashes.length ≤ d.partLength id ∧
      ∀ i (hi : i < hashes.length), ∃ file, d.part id = some file ∧
        hashes[i] = sha (blockOf (d.content file) c.totalSize i)

/-- Of an honest record `load_receive` returns what is true. -/
theorem HonestAt.loadsTrue {d : Disk} {id : String} (h : HonestAt sha d id) :
    LoadsTrue sha d id := by
  intro c hashes hload
  rcases loadReceive_cases ⟨d, []⟩ id with ⟨hnone, -⟩ | ⟨c', hashes', hsome, hloaded⟩ | hgone
  · rw [hnone] at hload
    cases hload
  · rw [hsome] at hload
    cases hload
    obtain ⟨c₀, -, rfl, -, -⟩ := hloaded.stored
    refine ⟨rfl, hloaded.holds, ?_⟩
    intro i hi
    cases hpart : d.part id with
    | none =>
      rw [hloaded.noPart hpart] at hi
      cases hi
    | some file => exact ⟨file, rfl, (hloaded.backed h hpart).hash_eq i hi⟩
  · rw [hgone] at hload
    cases hload

/-- After a crash nothing is open, so only the records matter. -/
theorem Safe.kept {d : Disk} (h : Safe sha d) : Kept sha ∅ d := by
  have hnone : ∀ k : String, (∅ : KeyMap Incoming)[k]? = none := by
    intro k
    exact Std.ExtTreeMap.getElem?_empty
  refine ⟨⟨h.1, ?_, ?_, ?_, ?_, ?_, ?_⟩, ?_, h.2⟩ <;>
    · intros
      simp_all

/-- One happening keeps every record honest. -/
theorem happen_kept {e e' : Engine} {a : Happening} (h : Kept sha e.incoming e.disk)
    (hagree : HappeningAgrees sha e a) (hstep : e.happen sha a = some e') :
    Kept sha e'.incoming e'.disk := by
  cases a with
  | event event =>
    cases hstep
    exact next_kept h event hagree
  | crash event writes =>
    cases hstep
    obtain ⟨ops, hjournal, hran⟩ := handle_ran h event hagree
    have hops : (e.handle sha event).journal.ops = ops := by
      rw [hjournal]
      exact List.nil_append ops
    show Kept sha ∅ (Lib.applyAll Disk.after e.disk
      ((e.handle sha event).journal.ops.take writes))
    rw [hops]
    exact (Lib.allAlong_take hran.along writes).kept

/-- As long as no frame completes a block the saved record lists with
bytes of another hash, `load_receive` returns what is true of the partial
file, after any events and crashes. -/
theorem resume_true (sha : Bytes → Hash) (peer : String) (steps : List Happening) (e : Engine)
    (hmeet : Lib.StepsMeet (Engine.happen sha) (HappeningAgrees sha) { peer := peer } steps)
    (hrun : Lib.runFrom (Engine.happen sha) { peer := peer } steps = some e) (id : String) :
    LoadsTrue sha e.disk id := by
  have hkept : Kept sha e.incoming e.disk := by
    refine Lib.runFrom_invariant_of_steps (I := fun e => Kept sha e.incoming e.disk)
      ?_ (kept_new peer) hmeet hrun
    intro s a s' hs hC hstep
    exact happen_kept hs hC hstep
  exact (hkept.honest id).loadsTrue

/-! ### A block replaced after its checkpoint -/

/-- `abc` arrives and is checkpointed; the sender's next pass sends `xyz`,
and the engine stops once that is written. -/
def replacedBlock : List Happening :=
  [.event (.offer sampleOffer {}), .event (.frame (sampleFrame 0 97 98 99) {}),
    .event (.checkpointDue "t" .whole), .crash (.frame (sampleFrame 1 120 121 122) {}) 2]

/-- The record then says `abc`, and the file has `xyz`. -/
theorem resume_false : ¬ ∀ (steps : List Happening) (e : Engine),
    Lib.runFrom (Engine.happen sampleSha) { peer := "p" } steps = some e →
      ∀ id, LoadsTrue sampleSha e.disk id := by
  intro h
  obtain ⟨e, he⟩ : ∃ e, Lib.runFrom (Engine.happen sampleSha) { peer := "p" } replacedBlock
      = some e := ⟨_, rfl⟩
  -- What is on the disk, evaluated.
  have hheld : ((Lib.runFrom (Engine.happen sampleSha) { peer := "p" } replacedBlock).bind
      (fun e => (loadReceive ⟨e.disk, []⟩ "t").2)).map (fun held => (held.1.totalSize, held.2))
        = some (3, [sampleSha [97, 98, 99]]) := by
    decide +kernel
  have hfile : (Lib.runFrom (Engine.happen sampleSha) { peer := "p" } replacedBlock).map
      (fun e => (e.disk.part "t", e.disk.content 0)) = some (some 0, [120, 121, 122]) := by
    decide +kernel
  rw [he] at hheld hfile
  obtain ⟨⟨c, hashes⟩, hload, heq⟩ := Option.map_eq_some_iff.mp hheld
  obtain ⟨htotal, rfl⟩ := Prod.mk.inj heq
  obtain ⟨hpart, hcontent⟩ := Prod.mk.inj (Option.some.inj hfile)
  obtain ⟨-, -, htrue⟩ := h replacedBlock e he "t" c _ hload
  obtain ⟨file, hfile, hhash⟩ := htrue 0 (by decide)
  rw [hpart] at hfile
  cases hfile
  rw [hcontent, show c.totalSize = 3 from htotal] at hhash
  exact absurd hhash (by decide +kernel)

/-- The next pass sends the same bytes, and the engine stops once they are
written. -/
def repeatedBlock : List Happening :=
  [.event (.offer sampleOffer {}), .event (.frame (sampleFrame 0 97 98 99) {}),
    .event (.checkpointDue "t" .whole), .crash (.frame (sampleFrame 1 97 98 99) {}) 2]

/-- A record stays true when the pass begins again with the same bytes. -/
theorem resume_true_repeated :
    ∃ e, Lib.runFrom (Engine.happen sampleSha) { peer := "p" } repeatedBlock = some e ∧
      ∀ id, LoadsTrue sampleSha e.disk id := by
  obtain ⟨e, he⟩ : ∃ e, Lib.runFrom (Engine.happen sampleSha) { peer := "p" } repeatedBlock
      = some e := ⟨_, rfl⟩
  have hmeet : Lib.StepsMeet (Engine.happen sampleSha) (HappeningAgrees sampleSha)
      { peer := "p" } repeatedBlock := by
    decide +kernel
  exact ⟨e, he, fun id => resume_true sampleSha "p" repeatedBlock e hmeet he id⟩

end DeskLink.Transfer
