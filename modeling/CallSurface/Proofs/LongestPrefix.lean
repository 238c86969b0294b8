/-
The longest prefix of the input that a grammar accepts.

A scan takes what it can and never gives a byte back. It takes the longest prefix of its grammar because each part of a
token is told from the next one by a single byte: blanks end at the first byte that is none, a sign is there or it is
not, and so on. There is one rule for each way in which parts follow one another:
- `Longest.run`: bytes of one class, then a text that does not begin with such a byte;
- `Longest.present`, `Longest.absent`: one byte of a class decides how the text goes on;
- `Longest.optional`: one byte of a class may stand before the text;
- `Longest.trim`: of a longest prefix only the front part counts, if what is cut off can end no text that counts.
-/
import CallSurface.Proofs.CleanInput

namespace CallSurface

open Scanner (Stops)

/-- of all prefixes of `t ++ rest` that the grammar accepts, `t` is the longest one -/
structure Longest (G : Bytes → Prop) (t rest : Bytes) : Prop where
  member : G t
  longest : ∀ u, u <+: t ++ rest → G u → u.length ≤ t.length

variable {G H : Bytes → Prop} {p : UInt8 → Bool} {t u rest : Bytes}

/-- where some prefix is accepted, there is a longest one -/
theorem exists_longest (hfront : u <+: rest) (hu : G u) : ∃ t after, rest = t ++ after ∧ Longest G t after := by
  -- what is left to find are prefixes longer than `u`, and these are bounded by the whole input
  induction hn : rest.length - u.length using Nat.strong_induction_on generalizing u with
  | _ n ih =>
    obtain ⟨after, rfl⟩ := hfront
    by_cases hmax : ∀ v, v <+: u ++ after → G v → v.length ≤ u.length
    · exact ⟨u, after, rfl, hu, hmax⟩
    · push Not at hmax
      obtain ⟨v, hv, hGv, hlonger⟩ := hmax
      have hbound := hv.length_le
      exact ih _ (by omega) hv hGv rfl

/-- an input has one longest prefix only -/
theorem Longest.eq_of_append_eq {after : Bytes} (h : Longest G t rest) (h' : Longest G u after)
    (heq : t ++ rest = u ++ after) : t = u := by
  have hle := h.longest u (heq ▸ List.prefix_append u after) h'.member
  have hge := h'.longest t (heq ▸ List.prefix_append t rest) h.member
  exact (List.append_inj heq (Nat.le_antisymm hge hle)).1

/-! ## Parts in a row -/

theorem Longest.nil (rest : Bytes) : Longest (· = []) [] rest :=
  ⟨rfl, fun _ _ hu => by rw [hu]⟩

/-- grammars that accept the same texts have the same longest prefixes -/
theorem Longest.congr (h : Longest G t rest) (hiff : ∀ s, H s ↔ G s) : Longest H t rest :=
  ⟨(hiff t).2 h.member, fun u hu hHu => h.longest u hu ((hiff u).1 hHu)⟩

/-- a text that begins with a byte of the class is no prefix of input that stops there -/
theorem not_prefix_of_stops {b : UInt8} (hb : p b = true) (hstop : Stops p rest) : ¬ b :: u <+: rest := by
  rintro ⟨after, rfl⟩
  exact absurd (hstop b rfl) (by simp [hb])

/-- and a text of the grammar stops what its first byte stops -/
theorem stops_of_begins (ht : G t) (hG : ∀ b s, G (b :: s) → p b = false) : Stops p t := by
  intro b hb
  cases t with
  | nil => cases hb
  | cons c s =>
    cases hb
    exact hG b s ht

theorem Longest.run {run : Bytes} (hrun : run.all p = true) (hstop : Stops p (t ++ rest))
    (hG : ∀ b s, G (b :: s) → p b = false) (h : Longest G t rest) :
    Longest (fun s => ∃ r v, s = r ++ v ∧ r.all p = true ∧ G v) (run ++ t) rest := by
  refine ⟨⟨run, t, rfl, hrun, h.member⟩, ?_⟩
  rintro _ hfront ⟨r, v, rfl, hr, hv⟩
  -- both runs are walked through together; the one that ends first ends the other one
  induction run generalizing r with
  | nil =>
    cases r with
    | nil => exact h.longest v hfront hv
    | cons b r => exact absurd hfront (not_prefix_of_stops (by simp at hr; exact hr.1) hstop)
  | cons c run ih =>
    simp only [List.all_cons, Bool.and_eq_true] at hrun
    cases r with
    | nil =>
      cases v with
      | nil => exact Nat.zero_le _
      | cons b v =>
        obtain ⟨rfl, -⟩ := List.cons_prefix_cons.1 hfront
        exact absurd (hG b v hv) (by simp [hrun.1])
    | cons b r =>
      simp only [List.all_cons, Bool.and_eq_true] at hr
      obtain ⟨rfl, htail⟩ := List.cons_prefix_cons.1 hfront
      exact Nat.succ_le_succ (ih hrun.2 r htail hr.2)

/-- the deciding byte is there -/
theorem Longest.present {b : UInt8} (hb : p b = true) (hH : ∀ c s, H (c :: s) → p c = false) (h : Longest G t rest) :
    Longest (fun s => H s ∨ ∃ c v, s = c :: v ∧ p c = true ∧ G v) (b :: t) rest := by
  refine ⟨Or.inr ⟨b, t, rfl, hb, h.member⟩, ?_⟩
  rintro s hfront (hs | ⟨c, v, rfl, -, hv⟩)
  · cases s with
    | nil => exact Nat.zero_le _
    | cons c s =>
      obtain ⟨rfl, -⟩ := List.cons_prefix_cons.1 hfront
      exact absurd (hH c s hs) (by simp [hb])
  · obtain ⟨rfl, htail⟩ := List.cons_prefix_cons.1 hfront
    exact Nat.succ_le_succ (h.longest v htail hv)

/-- the deciding byte is not there -/
theorem Longest.absent (hstop : Stops p (t ++ rest)) (h : Longest H t rest) :
    Longest (fun s => H s ∨ ∃ c v, s = c :: v ∧ p c = true ∧ G v) t rest := by
  refine ⟨Or.inl h.member, ?_⟩
  rintro s hfront (hs | ⟨c, v, rfl, hc, -⟩)
  · exact h.longest s hfront hs
  · exact absurd hfront (not_prefix_of_stops hc hstop)

theorem Longest.optional {o : Option UInt8} (ho : o.all p = true) (hstop : o = none → Stops p (t ++ rest))
    (hG : ∀ b s, G (b :: s) → p b = false) (h : Longest G t rest) :
    Longest (fun s => ∃ (o : Option UInt8) (v : Bytes), s = o.toList ++ v ∧ o.all p = true ∧ G v) (o.toList ++ t)
      rest := by
  have hiff : ∀ s, (∃ (o : Option UInt8) (v : Bytes), s = o.toList ++ v ∧ o.all p = true ∧ G v) ↔
      G s ∨ ∃ c v, s = c :: v ∧ p c = true ∧ G v := by
    simp [Option.exists]
  cases o with
  | none => exact (Longest.absent (hstop rfl) h).congr hiff
  | some b => exact (Longest.present (by simpa using ho) hG h).congr hiff

/-! ## Cutting off what does not count -/

/-- a prefix that ends with no byte of the class does not reach into a tail of such bytes -/
theorem length_le_of_prefix_append {tail : Bytes} (hu : u <+: t ++ tail) (htail : ∀ b ∈ tail, p b = true)
    (hlast : ∀ b ∈ u.getLast?, p b = false) : u.length ≤ t.length := by
  by_contra hlonger
  obtain ⟨v, rfl⟩ := List.prefix_of_prefix_length_le (List.prefix_append t tail) hu (Nat.le_of_not_le hlonger)
  have hv := (List.prefix_append_right_inj t).1 hu
  have hne : v ≠ [] := by
    rintro rfl
    exact hlonger (by simp)
  have hmem := hv.subset (List.getLast_mem hne)
  have hend := hlast (v.getLast hne) (by simp [List.getLast?_append, List.getLast?_eq_some_getLast hne])
  exact absurd (htail _ hmem) (by simp [hend])

theorem Longest.trim {tail : Bytes} (h : Longest G (t ++ tail) rest) (htail : ∀ b ∈ tail, p b = true) (ht : H t)
    (hG : ∀ s, s <+: t ++ (tail ++ rest) → H s → G s) (hlast : ∀ s, H s → ∀ b ∈ s.getLast?, p b = false) :
    Longest H t (tail ++ rest) := by
  refine ⟨ht, ?_⟩
  intro s hfront hs
  have hall : s <+: (t ++ tail) ++ rest := by rwa [List.append_assoc]
  have hfront : s <+: t ++ tail :=
    List.prefix_of_prefix_length_le hall (List.prefix_append _ _) (h.longest s hall (hG s hfront hs))
  exact length_le_of_prefix_append hfront htail (hlast s hs)

/-! ## Input that is taken apart greedily -/

theorem stops_dropWhile (p : UInt8 → Bool) (input : Bytes) : Stops p (input.dropWhile p) := by
  intro b hb
  have hnot := List.head?_dropWhile_not p input
  rw [Option.mem_def.1 hb] at hnot
  exact hnot

theorem dropWhile_eq_self_of_stops (h : Stops p rest) : rest.dropWhile p = rest := by
  cases rest with
  | nil => rfl
  | cons b rest => rw [List.dropWhile_cons, h b rfl]; rfl

theorem exists_run (p : UInt8 → Bool) (input : Bytes) :
    ∃ run rest, input = run ++ rest ∧ run.all p = true ∧ Stops p rest :=
  ⟨input.takeWhile p, input.dropWhile p, List.takeWhile_append_dropWhile.symm, List.all_takeWhile,
    stops_dropWhile p input⟩

theorem exists_optional (p : UInt8 → Bool) (input : Bytes) :
    ∃ (o : Option UInt8) (rest : Bytes), input = o.toList ++ rest ∧ o.all p = true ∧ (o = none → Stops p rest) := by
  cases input with
  | nil => exact ⟨none, [], rfl, rfl, fun _ => by simp [Stops]⟩
  | cons b rest =>
    by_cases hb : p b = true
    · exact ⟨some b, rest, rfl, by simpa using hb, by simp⟩
    · exact ⟨none, b :: rest, rfl, rfl, fun _ => Scanner.stops_cons rest (by simpa using hb)⟩

end CallSurface
