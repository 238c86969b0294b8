/-
Blocks that do not overlap.

Of an allocator no more is assumed than what `malloc` promises (`Allocator.Sound`): a block that it places is not null,
aligned, inside the address space and apart from all live blocks, and very large requests fail. Of the bytes that lie in
a block at first (`Allocator.leftover`) `malloc` promises nothing, and nothing is assumed.

A heap is orderly if its live blocks are apart from each other and inside the address space; then an address points into
one block at most, so that a look-up by address finds the block one has in mind (`Heap.Orderly.load_eq`,
`Heap.Orderly.locate_eq`).

How much room there is, is a separate assumption (`Allocator.Supplies`).

`Allocator.ascending_sound`, `Allocator.ascending_supplies`: the assumptions can be met.
-/
import CallSurface.CharArray
import Mathlib.Tactic

namespace CallSurface

/-! ## Blocks -/

namespace Block

/-- no address points into both blocks -/
def Apart (b c : Block) : Prop :=
  b.limit ≤ c.base ∨ c.limit ≤ b.base

instance : Std.Symm Apart where
  symm _ _ h := Or.symm h

theorem holds_iff {b : Block} {a : Nat} : b.holds a = true ↔ b.base ≤ a ∧ a < b.limit := by
  simp [holds]

theorem covers_iff {b : Block} {a n : Nat} : b.covers a n = true ↔ b.base ≤ a ∧ a + n ≤ b.base + b.size := by
  simp [covers]

theorem base_lt_limit (b : Block) : b.base < b.limit := by
  unfold limit
  omega

theorem add_size_le_limit (b : Block) : b.base + b.size ≤ b.limit := by
  unfold limit
  omega

/-- the addresses that a block takes -/
def footprint (b : Block) : Nat :=
  max b.size 1

/-- bytes that a block covers lie in it -/
theorem holds_of_covers {b : Block} {a n : Nat} (h : b.covers a n = true) (hn : 0 < n) : b.holds a = true := by
  have hlimit := b.add_size_le_limit
  rw [covers_iff] at h
  rw [holds_iff]
  omega

theorem not_holds_of_apart {b c : Block} {a : Nat} (h : b.Apart c) (hb : b.holds a = true) : c.holds a = false := by
  rw [holds_iff] at hb
  rw [← Bool.not_eq_true, holds_iff]
  unfold Apart at h
  omega

end Block

/-! ## Allocators -/

namespace Allocator

/-- what an allocator promises -/
structure Sound (a : Allocator) : Prop where
  not_null : ∀ {step blocks size base}, a.place step blocks size = some base → 0 < base
  aligned : ∀ {step blocks size base}, a.place step blocks size = some base → alignment ∣ base
  bounded : ∀ {step blocks size base}, a.place step blocks size = some base → base + max size 1 ≤ addressLimit
  apart : ∀ {step blocks size base}, a.place step blocks size = some base →
    ∀ b ∈ blocks, base + max size 1 ≤ b.base ∨ b.limit ≤ base
  refuses : ∀ {step blocks size}, sizeLimit ≤ size → a.place step blocks size = none

namespace Sound

variable {a : Allocator} {step size base : Nat} {blocks : List Block}

/-- where a block is placed is a machine address -/
theorem toNat_ofNat (ha : a.Sound) (hplace : a.place step blocks size = some base) :
    (BitVec.ofNat IntKind.usize.bits base).toNat = base := by
  have hbound := ha.bounded hplace
  have hlt : base < addressLimit := by omega
  rw [BitVec.toNat_ofNat]
  exact Nat.mod_eq_of_lt hlt

theorem ofNat_ne_zero (ha : a.Sound) (hplace : a.place step blocks size = some base) :
    BitVec.ofNat IntKind.usize.bits base ≠ 0 := by
  intro hnull
  have hzero : base = 0 := by
    rw [← ha.toNat_ofNat hplace, hnull]
    rfl
  exact absurd hzero (Nat.ne_of_gt (ha.not_null hplace))

end Sound

/-- blocks that the allocator has placed one after the other, the newest first -/
inductive Placed (a : Allocator) : List Block → Prop
  | nil : a.Placed []
  | cons {blocks : List Block} {step size base : Nat} {contents : Nat → UInt8} (older : a.Placed blocks)
      (place : a.place step blocks size = some base) : a.Placed (⟨base, size, step, contents⟩ :: blocks)

/-- as long as nothing is given back, the allocator finds room for blocks that take `n` addresses in all -/
def Supplies (a : Allocator) (n : Nat) : Prop :=
  ∀ {blocks : List Block}, a.Placed blocks → ∀ step size : Nat,
    (blocks.map Block.footprint).sum + max size 1 ≤ n → ∃ base, a.place step blocks size = some base

theorem limit_le_top {blocks : List Block} {b : Block} (hb : b ∈ blocks) : b.limit ≤ top blocks := by
  induction blocks with
  | nil => simp at hb
  | cons c blocks ih =>
    rcases List.mem_cons.1 hb with rfl | hb
    · exact le_max_left _ _
    · exact le_trans (ih hb) (le_max_right _ _)

theorem lt_alignedAbove (a : Nat) : a < alignedAbove a := by
  unfold alignedAbove alignment
  omega

theorem alignedAbove_le (a : Nat) : alignedAbove a ≤ a + alignment := by
  unfold alignedAbove alignment
  omega

theorem place_ascending {step size base : Nat} {blocks : List Block} :
    ascending.place step blocks size = some base ↔
      (size < sizeLimit ∧ alignedAbove (top blocks) + max size 1 ≤ addressLimit) ∧ alignedAbove (top blocks) = base := by
  simp [ascending]

theorem ascending_sound : ascending.Sound where
  not_null h := by
    obtain ⟨-, rfl⟩ := place_ascending.1 h
    exact Nat.zero_lt_of_lt (lt_alignedAbove _)
  aligned h := by
    obtain ⟨-, rfl⟩ := place_ascending.1 h
    exact Nat.dvd_mul_left _ _
  bounded h := by
    obtain ⟨⟨-, hroom⟩, rfl⟩ := place_ascending.1 h
    exact hroom
  apart h b hb := by
    obtain ⟨-, rfl⟩ := place_ascending.1 h
    exact Or.inr (le_trans (limit_le_top hb) (lt_alignedAbove _).le)
  refuses hsize := by
    rw [Option.eq_none_iff_forall_ne_some]
    intro base h
    obtain ⟨⟨hlt, -⟩, -⟩ := place_ascending.1 h
    exact absurd hsize (Nat.not_le.2 hlt)

/-- each block takes its addresses and at most `alignment` more -/
theorem top_le_of_placed {blocks : List Block} (h : ascending.Placed blocks) :
    top blocks ≤ start + (alignment + 1) * (blocks.map Block.footprint).sum := by
  induction h with
  | nil => exact le_rfl
  | @cons blocks step size base contents older place ih =>
    obtain ⟨-, rfl⟩ := place_ascending.1 place
    have hbase := alignedAbove_le (top blocks)
    simp only [top, List.foldr_cons, List.map_cons, List.sum_cons, Block.limit, Block.footprint, alignment] at hbase ih ⊢
    omega

theorem ascending_supplies {n : Nat} (hn : n ≤ twoPow 59) : ascending.Supplies n := by
  intro blocks hplaced step size hsize
  have htop := top_le_of_placed hplaced
  have hbase := alignedAbove_le (top blocks)
  have hn' : n ≤ 0x800000000000000 := hn
  have hsizeLimit : sizeLimit = 0x8000000000000000 := rfl
  have haddressLimit : addressLimit = 0x10000000000000000 := rfl
  simp only [start, alignment] at htop hbase
  refine ⟨_, place_ascending.2 ⟨⟨?_, ?_⟩, rfl⟩⟩
  · omega
  · omega

end Allocator

/-! ## Orderly heaps -/

namespace Heap

/-- live blocks are apart, not null, and inside the address space -/
structure Orderly (h : Heap) : Prop where
  apart : h.blocks.Pairwise Block.Apart
  not_null : ∀ b ∈ h.blocks, 0 < b.base
  bounded : ∀ b ∈ h.blocks, b.limit ≤ Allocator.addressLimit

theorem orderly_empty (a : Allocator) : (empty a).Orderly :=
  ⟨List.Pairwise.nil, by simp [empty], by simp [empty]⟩

namespace Orderly

variable {h : Heap} {b : Block}

/-- an address points into one block at most -/
theorem eq_of_holds (horder : h.Orderly) {c : Block} {a : Nat} (hb : b ∈ h.blocks) (hc : c ∈ h.blocks)
    (hba : b.holds a = true) (hca : c.holds a = true) : b = c := by
  by_contra hne
  have hapart : b.Apart c := horder.apart.forall hb hc hne
  rw [Block.not_holds_of_apart hapart hba] at hca
  exact Bool.false_ne_true hca

theorem find?_covers (horder : h.Orderly) {a n : Nat} (hb : b ∈ h.blocks) (hba : b.covers a n = true) (hn : 0 < n) :
    h.blocks.find? (·.covers a n) = some b := by
  cases hfind : h.blocks.find? (·.covers a n) with
  | none => exact absurd hba (List.find?_eq_none.1 hfind b hb)
  | some c =>
    have hca : c.covers a n = true := by simpa using List.find?_some hfind
    rw [horder.eq_of_holds hb (List.mem_of_find?_eq_some hfind) (Block.holds_of_covers hba hn)
      (Block.holds_of_covers hca hn)]

/-- bytes of a live block are read from that block -/
theorem load_eq (horder : h.Orderly) {p : Address} {n : Nat} (hb : b ∈ h.blocks) (hp : b.covers p.toNat n = true) :
    h.load p n = some (b.read (p.toNat - b.base) n) := by
  unfold load
  split_ifs with hn
  · subst hn
    rfl
  · rw [horder.find?_covers hb hp (Nat.pos_of_ne_zero hn)]
    rfl

end Orderly

end Heap

/-! ## Operations on orderly heaps -/

namespace Block

@[simp] theorem base_writeAt (b : Block) (a : Nat) (bytes : Bytes) : (b.writeAt a bytes).base = b.base := by
  unfold writeAt
  split_ifs <;> rfl

@[simp] theorem size_writeAt (b : Block) (a : Nat) (bytes : Bytes) : (b.writeAt a bytes).size = b.size := by
  unfold writeAt
  split_ifs <;> rfl

@[simp] theorem limit_writeAt (b : Block) (a : Nat) (bytes : Bytes) : (b.writeAt a bytes).limit = b.limit := by
  rw [limit, limit, base_writeAt, size_writeAt]

/-- bytes that are written elsewhere leave a block as it is -/
theorem writeAt_eq_self {b : Block} {a : Nat} {bytes : Bytes} (h : b.covers a bytes.length = false) :
    b.writeAt a bytes = b := by
  simp [writeAt, h]

/-- a byte of a block that bytes are written into -/
theorem contents_writeAt {b : Block} {a : Nat} {bytes : Bytes} (h : b.covers a bytes.length = true) (i : Nat) :
    (b.writeAt a bytes).contents i =
      if a ≤ b.base + i then bytes.getD (b.base + i - a) (b.contents i) else b.contents i := by
  have hbase := (covers_iff.1 h).1
  have hle : a - b.base ≤ i ↔ a ≤ b.base + i := by omega
  have hsub : i - (a - b.base) = b.base + i - a := by omega
  have hgetD : ∀ j : Nat, bytes.toArray.getD j (b.contents i) = bytes.getD j (b.contents i) := by simp
  rw [writeAt, if_pos h]
  simp only [write, hle, hsub, hgetD]

end Block

namespace Heap

variable {h : Heap} {b : Block} {p : Address}

end Heap

namespace Heap.Orderly

variable {h : Heap}

theorem allocate (horder : h.Orderly) (hsound : h.allocator.Sound) {origin size base : Nat}
    (hplace : h.allocator.place origin h.blocks size = some base) (contents : Nat → UInt8) :
    Orderly { h with blocks := ⟨base, size, origin, contents⟩ :: h.blocks } := by
  refine ⟨List.pairwise_cons.2 ⟨hsound.apart hplace, horder.apart⟩, ?_, ?_⟩
  · intro b hb
    rcases List.mem_cons.1 hb with rfl | hb
    · exact hsound.not_null hplace
    · exact horder.not_null b hb
  · intro b hb
    rcases List.mem_cons.1 hb with rfl | hb
    · exact hsound.bounded hplace
    · exact horder.bounded b hb

theorem store (horder : h.Orderly) (a : Nat) (bytes : Bytes) :
    Orderly { h with blocks := h.blocks.map (·.writeAt a bytes) } := by
  refine ⟨?_, ?_, ?_⟩
  · rw [List.pairwise_map]
    exact horder.apart.imp fun hapart => by simpa [Block.Apart] using hapart
  · intro b hb
    obtain ⟨c, hc, rfl⟩ := List.mem_map.1 hb
    simpa using horder.not_null c hc
  · intro b hb
    obtain ⟨c, hc, rfl⟩ := List.mem_map.1 hb
    simpa using horder.bounded c hc

theorem free (horder : h.Orderly) (a : Nat) : Orderly { h with blocks := h.blocks.filter (·.base != a) } := by
  refine ⟨horder.apart.filter _, ?_, ?_⟩
  · intro b hb
    exact horder.not_null b (List.mem_filter.1 hb).1
  · intro b hb
    exact horder.bounded b (List.mem_filter.1 hb).1

theorem of_placed {a : Allocator} (hsound : a.Sound) {blocks : List Block} (hplaced : a.Placed blocks) :
    Orderly ⟨blocks, a⟩ := by
  induction hplaced with
  | nil => exact orderly_empty a
  | cons older place ih => exact ih.allocate hsound place _

/-- exactly one block begins at the first address of a live block -/
theorem length_free (horder : h.Orderly) {b : Block} (hb : b ∈ h.blocks) :
    (h.blocks.filter (·.base != b.base)).length + 1 = h.blocks.length := by
  obtain ⟨front, back, hsplit⟩ := List.append_of_mem hb
  have hapart := horder.apart
  rw [hsplit, List.pairwise_append, List.pairwise_cons] at hapart
  obtain ⟨-, ⟨hback, -⟩, hfront⟩ := hapart
  have hkeep : ∀ c ∈ front ++ back, (c.base != b.base) = true := by
    intro c hc
    have hlimit := b.base_lt_limit
    have hlimit' := c.base_lt_limit
    have happ : c.Apart b := by
      rcases List.mem_append.1 hc with hc | hc
      · exact hfront c hc b List.mem_cons_self
      · exact Or.symm (hback c hc)
    unfold Block.Apart at happ
    simp only [bne_iff_ne, ne_eq]
    omega
  have hfilter : (front ++ b :: back).filter (·.base != b.base) = front ++ back := by
    rw [List.filter_append, List.filter_cons_of_neg (by simp), ← List.filter_append]
    exact List.filter_eq_self.2 hkeep
  rw [hsplit, hfilter, List.length_append, List.length_append, List.length_cons]
  omega

end Heap.Orderly

/-! ## Arrays -/

/-- what a block is filled with for an array: the bytes and a NUL behind them -/
theorem getD_toArray_eq (bytes : Bytes) (i : Nat) : bytes.toArray.getD i 0 = (bytes ++ [0]).getD i 0 := by
  simp only [Array.getD_eq_getD_getElem?, List.getElem?_toArray, List.getD_eq_getElem?_getD, List.getElem?_append]
  split_ifs with hi
  · rfl
  · cases i - bytes.length <;> simp [hi]

theorem Block.read_array (base origin : Nat) (bytes : Bytes) :
    Block.read ⟨base, bytes.length + 1, origin, (bytes.toArray.getD · 0)⟩ 0 (bytes.length + 1) = bytes ++ [0] := by
  apply List.ext_getElem
  · simp [read]
  · intro i hi hi'
    simp only [read, List.getElem_map, List.getElem_range, Nat.zero_add, getD_toArray_eq]
    rw [List.getD_eq_getElem?_getD, List.getElem?_eq_getElem hi', Option.getD_some]

/-- a new array is not null, and it holds the bytes and a NUL behind them -/
theorem Heap.Orderly.newCharArray {h : Heap} (horder : h.Orderly) (hsound : h.allocator.Sound) {origin base : Nat}
    {bytes : Bytes} (hplace : h.allocator.place origin h.blocks (bytes.length + 1) = some base) :
    ∃ c h', h.newCharArray origin bytes = some (c, h') ∧
      h' = { h with blocks := ⟨base, bytes.length + 1, origin, (bytes.toArray.getD · 0)⟩ :: h.blocks } ∧
      c.isNull = false ∧ c.length.toNat = bytes.length + 1 ∧ h'.bytesOf c = some (bytes ++ [0]) := by
  have horder' := horder.allocate hsound hplace (bytes.toArray.getD · 0)
  have hbase := hsound.toNat_ofNat hplace
  have hlength : (BitVec.ofNat IntKind.usize.bits (bytes.length + 1)).toNat = bytes.length + 1 := by
    have hbound := hsound.bounded hplace
    have hpos := hsound.not_null hplace
    have hlt : bytes.length + 1 < Allocator.addressLimit := by omega
    rw [BitVec.toNat_ofNat]
    exact Nat.mod_eq_of_lt hlt
  have hnull : CharArray.isNull ⟨BitVec.ofNat _ base, BitVec.ofNat _ (bytes.length + 1)⟩ = false := by
    simpa [CharArray.isNull] using hsound.ofNat_ne_zero hplace
  refine ⟨_, _, ?_, rfl, hnull, hlength, ?_⟩
  · simp only [Heap.newCharArray, Heap.allocate, hplace, Option.map_some]
  · have hload := horder'.load_eq (p := BitVec.ofNat _ base) (n := bytes.length + 1) List.mem_cons_self
      (by rw [hbase, Block.covers_iff]; exact ⟨le_rfl, le_rfl⟩)
    rw [bytesOf, if_neg (by rw [hnull]; exact Bool.false_ne_true), hlength, hload, hbase, Nat.sub_self,
      Block.read_array]

end CallSurface
