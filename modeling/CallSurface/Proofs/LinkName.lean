/-
Link names: no two symbols share one.

Names of kinds have no underscore, so that the kind at the end of a link name can be told from what stands before it
(`append_underscore_inj`). What stands before it tells the group of the symbol by its first word
(`firstWordGroup_stem`), and within a group there is little left to compare. Main result: `Symbol.name_injective`.
-/
import CallSurface.Catalogue
import Mathlib.Tactic

namespace CallSurface

/-! ## Kinds and operators, and their names -/

theorem Kind.mem_all (k : Kind) : k ∈ Kind.all := by
  cases k with
  | int k => cases k <;> decide
  | float k => cases k <;> decide
  | bool => decide

theorem Operator.mem_all (op : Operator) : op ∈ Operator.all := by
  cases op <;> decide

theorem Kind.ofName?_name (k : Kind) : ofName? k.name = some k := by
  cases k with
  | int k => cases k <;> decide
  | float k => cases k <;> decide
  | bool => decide

theorem Kind.name_injective : Function.Injective Kind.name := by
  intro k l h
  have hsome : some k = some l := by rw [← ofName?_name k, ← ofName?_name l, h]
  exact Option.some.inj hsome

theorem Operator.ofName?_name (op : Operator) : ofName? op.name = some op := by
  cases op <;> decide

theorem Operator.name_injective : Function.Injective Operator.name := by
  intro op p h
  have hsome : some op = some p := by rw [← ofName?_name op, ← ofName?_name p, h]
  exact Option.some.inj hsome

theorem Kind.underscore_notMem_name (k : Kind) : '_' ∉ k.name.toList := by
  cases k with
  | int k => cases k <;> simp [name, IntKind.name]
  | float k => cases k <;> simp [name, FloatKind.name]
  | bool => simp [name]

theorem Kind.append_name_inj {s : String} {k l : Kind} (h : s ++ k.name = s ++ l.name) : k = l :=
  name_injective ((String.append_right_inj s).1 h)

/-- a text that denotes no kind is the name of none -/
theorem Kind.name_ne (t : String) (ht : ofName? t = none) (k : Kind) : k.name ≠ t := by
  rintro rfl
  rw [ofName?_name] at ht
  exact Option.some_ne_none k ht

theorem Kind.append_name_ne (s t : String) (ht : ofName? t = none) (k : Kind) : s ++ k.name ≠ s ++ t := by
  intro h
  exact name_ne t ht k ((String.append_right_inj s).1 h)

/-- a list can be taken apart at the last place of an element in one way only -/
theorem append_cons_inj_of_last {α : Type} {x : α} {a b c d : List α} (hb : x ∉ b) (hd : x ∉ d)
    (h : a ++ x :: b = c ++ x :: d) : a = c ∧ b = d := by
  rcases List.append_eq_append_iff.1 h with ⟨t, hc, ht⟩ | ⟨t, ha, ht⟩
  · cases t with
    | nil =>
      simp only [List.append_nil, List.nil_append, List.cons.injEq, true_and] at hc ht
      exact ⟨hc.symm, ht⟩
    | cons y t =>
      simp only [List.cons_append, List.cons.injEq] at ht
      exact absurd (by rw [ht.2]; simp) hb
  · cases t with
    | nil =>
      simp only [List.append_nil, List.nil_append, List.cons.injEq, true_and] at ha ht
      exact ⟨ha, ht.symm⟩
    | cons y t =>
      simp only [List.cons_append, List.cons.injEq] at ht
      exact absurd (by rw [ht.2]; simp) hd

/-- a text can be taken apart at its last underscore in one way only -/
theorem append_underscore_inj {a b c d : String} (hb : '_' ∉ b.toList) (hd : '_' ∉ d.toList)
    (h : a ++ "_" ++ b = c ++ "_" ++ d) : a = c ∧ b = d := by
  have hchars : a.toList ++ '_' :: b.toList = c.toList ++ '_' :: d.toList := by
    simpa using congrArg String.toList h
  obtain ⟨hfront, hback⟩ := append_cons_inj_of_last hb hd hchars
  exact ⟨String.toList_inj.1 hfront, String.toList_inj.1 hback⟩

/-! ## Names of symbols -/

namespace Symbol

/-- symbols whose link names begin with the same word, the operators taken together -/
def group : Symbol → Nat
  | operator .. => 0
  | cast .. | addressToUsize | usizeToAddress => 1
  | print _ | printChars => 2
  | println _ | printlnChars => 3
  | input _ | inputLine => 4
  | malloc => 5
  | free => 6
  | exit => 7

/-- the group that the first word of a stem stands for -/
def firstWordGroup (stem : List Char) : Nat :=
  match stem.takeWhile (· != '_') with
  | ['c', 'a', 's', 't'] => 1
  | ['p', 'r', 'i', 'n', 't'] => 2
  | ['p', 'r', 'i', 'n', 't', 'l', 'n'] => 3
  | ['i', 'n', 'p', 'u', 't'] => 4
  | ['m', 'a', 'l', 'l', 'o', 'c'] => 5
  | ['f', 'r', 'e', 'e'] => 6
  | ['e', 'x', 'i', 't'] => 7
  | _ => 0

/-- what stands behind an underscore does not change the first word -/
theorem firstWordGroup_append (s t : List Char) : firstWordGroup (s ++ '_' :: t) = firstWordGroup s := by
  have hword : (s ++ '_' :: t).takeWhile (· != '_') = s.takeWhile (· != '_') := by
    induction s with
    | nil => rfl
    | cons c s ih => by_cases hc : (c != '_') = true <;> simp [hc, ih]
  rw [firstWordGroup, hword, firstWordGroup]

theorem firstWordGroup_stem (y : Symbol) : firstWordGroup y.stem.toList = y.group := by
  cases y with
  | operator op k =>
    have hchars : (operator op k).stem.toList = op.name.toList ++ '_' :: k.name.toList := by simp [stem]
    rw [hchars, firstWordGroup_append]
    cases op <;> rfl
  | cast a b =>
    have hchars : (cast a b).stem.toList = "cast".toList ++ '_' :: (a.name ++ "_" ++ b.name).toList := by simp [stem]
    rw [hchars, firstWordGroup_append]
    rfl
  | print k =>
    have hchars : (print k).stem.toList = "print".toList ++ '_' :: k.name.toList := by simp [stem]
    rw [hchars, firstWordGroup_append]
    rfl
  | println k =>
    have hchars : (println k).stem.toList = "println".toList ++ '_' :: k.name.toList := by simp [stem]
    rw [hchars, firstWordGroup_append]
    rfl
  | input k =>
    have hchars : (input k).stem.toList = "input".toList ++ '_' :: k.name.toList := by simp [stem]
    rw [hchars, firstWordGroup_append]
    rfl
  | _ => rfl

/-- no cast between kinds is spelled like a cast of addresses -/
theorem cast_stem_ne (a b : Kind) : (cast a b).stem ≠ addressToUsize.stem ∧ (cast a b).stem ≠ usizeToAddress.stem := by
  constructor <;> intro h
  · have hparts : "cast_" ++ a.name ++ "_" ++ b.name = "cast_" ++ "voidptr" ++ "_" ++ "usize" := h
    obtain ⟨ha, -⟩ := append_underscore_inj b.underscore_notMem_name (by simp) hparts
    exact Kind.append_name_ne "cast_" "voidptr" (by decide) a ha
  · have hparts : "cast_" ++ a.name ++ "_" ++ b.name = "cast_" ++ "usize" ++ "_" ++ "voidptr" := h
    obtain ⟨-, hb⟩ := append_underscore_inj b.underscore_notMem_name (by simp) hparts
    exact Kind.name_ne "voidptr" (by decide) b hb

theorem stem_injective : Function.Injective stem := by
  intro y z h
  have hgroup : y.group = z.group := by rw [← firstWordGroup_stem, ← firstWordGroup_stem, h]
  cases y with
  | operator op k =>
    cases z with
    | operator p l =>
      obtain ⟨hop, hk⟩ := append_underscore_inj k.underscore_notMem_name l.underscore_notMem_name h
      rw [Operator.name_injective hop, Kind.name_injective hk]
    | _ => simp [group] at hgroup
  | cast a b =>
    cases z with
    | cast c d =>
      obtain ⟨ha, hb⟩ := append_underscore_inj b.underscore_notMem_name d.underscore_notMem_name h
      rw [Kind.append_name_inj ha, Kind.name_injective hb]
    | addressToUsize => exact absurd h (cast_stem_ne a b).1
    | usizeToAddress => exact absurd h (cast_stem_ne a b).2
    | _ => simp [group] at hgroup
  | addressToUsize =>
    cases z with
    | cast c d => exact absurd h.symm (cast_stem_ne c d).1
    | addressToUsize => rfl
    | usizeToAddress => simp [stem] at h
    | _ => simp [group] at hgroup
  | usizeToAddress =>
    cases z with
    | cast c d => exact absurd h.symm (cast_stem_ne c d).2
    | addressToUsize => simp [stem] at h
    | usizeToAddress => rfl
    | _ => simp [group] at hgroup
  | print k =>
    cases z with
    | print l => rw [Kind.append_name_inj h]
    | printChars => exact absurd h (Kind.append_name_ne "print_" "char_arr" (by decide) k)
    | _ => simp [group] at hgroup
  | printChars =>
    cases z with
    | print l => exact absurd h.symm (Kind.append_name_ne "print_" "char_arr" (by decide) l)
    | printChars => rfl
    | _ => simp [group] at hgroup
  | println k =>
    cases z with
    | println l => rw [Kind.append_name_inj h]
    | printlnChars => exact absurd h (Kind.append_name_ne "println_" "char_arr" (by decide) k)
    | _ => simp [group] at hgroup
  | printlnChars =>
    cases z with
    | println l => exact absurd h.symm (Kind.append_name_ne "println_" "char_arr" (by decide) l)
    | printlnChars => rfl
    | _ => simp [group] at hgroup
  | input k =>
    cases z with
    | input l => rw [Kind.append_name_inj h]
    | inputLine => exact absurd h (Kind.append_name_ne "input_" "string" (by decide) k)
    | _ => simp [group] at hgroup
  | inputLine =>
    cases z with
    | input l => exact absurd h.symm (Kind.append_name_ne "input_" "string" (by decide) l)
    | inputLine => rfl
    | _ => simp [group] at hgroup
  | malloc =>
    cases z with
    | malloc => rfl
    | _ => simp [group] at hgroup
  | free =>
    cases z with
    | free => rfl
    | _ => simp [group] at hgroup
  | exit =>
    cases z with
    | exit => rfl
    | _ => simp [group] at hgroup

/-- **No two symbols share a link name.** -/
theorem name_injective : Function.Injective name := by
  intro y z h
  exact stem_injective ((String.append_right_inj _).1 h)

end Symbol

end CallSurface
