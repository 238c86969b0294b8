/-
The grammar of the command line, and that parsing follows it.

A word and its text determine each other (`Word.ofString_eq_iff`). An option is spelled in one word or in two
(`Opt.Spelled`), a line of options is a row of such spellings with perhaps a closing `--` (`OptionLine`), and it is
admissible if no option is given twice and no path is empty. One option is given its value and reading goes on behind it
(`assignments_spelled`), so a whole row is (`assignments_row`). Every line begins with a row that cannot be prolonged
(`exists_row`), and there it ends, closes or fails (`assignments_of_rowEnds`). Main results: `parse_eq_ok_iff`, which words
spell a command, and `parse_eq_help_iff`, which ask for help.
-/
import CallSurface.Command.Arguments
import Mathlib.Data.List.TakeWhile
import Mathlib.Tactic

namespace CallSurface

/-! ## Words -/

/-- can the text be a word of its own? It does not begin with a dash, or it is nothing but one. -/
def StandsAlone (s : String) : Prop :=
  s = "-" ∨ s.toList.head? ≠ some '-'

namespace Word

def text : Word → String
  | plain s => s
  | long name none => "--" ++ name
  | long name (some v) => "--" ++ name ++ "=" ++ v
  | short c rest => String.ofList ('-' :: c :: rest)

/-- the words that a text can be -/
def Formed : Word → Prop
  | plain s => StandsAlone s
  | long name _ => '=' ∉ name.toList
  | short c _ => c ≠ '-'

theorem bne_of_notMem {name : List Char} (h : '=' ∉ name) : ∀ c ∈ name, (c != '=') = true := by
  intro c hc
  simpa using ne_of_mem_of_not_mem hc h

theorem span_of_notMem {name : List Char} (h : '=' ∉ name) : name.span (· != '=') = (name, []) := by
  rw [List.span_eq_takeWhile_dropWhile, List.takeWhile_eq_self_iff.2 (bne_of_notMem h),
    List.dropWhile_eq_nil_iff.2 (bne_of_notMem h)]

theorem span_append_of_notMem {name : List Char} (h : '=' ∉ name) (value : List Char) :
    (name ++ '=' :: value).span (· != '=') = (name, '=' :: value) := by
  rw [List.span_eq_takeWhile_dropWhile, List.takeWhile_append_of_pos (bne_of_notMem h),
    List.dropWhile_append_of_pos (bne_of_notMem h)]
  simp

theorem ofString_text {w : Word} (h : w.Formed) : ofString w.text = w := by
  cases w with
  | plain s =>
    rcases h with rfl | h
    · decide
    · show ofString s = .plain s
      unfold ofString
      split
      · next hs => exact absurd (by simp [hs]) h
      · next hs => exact absurd (by simp [hs]) h
      · rfl
  | long name value =>
    cases value with
    | none =>
      have hchars : (long name none).text.toList = '-' :: '-' :: name.toList := by simp [text]
      simp only [ofString, hchars, span_of_notMem h, String.ofList_toList]
    | some v =>
      have hchars : (long name (some v)).text.toList = '-' :: '-' :: (name.toList ++ '=' :: v.toList) := by simp [text]
      simp only [ofString, hchars, span_append_of_notMem h, String.ofList_toList]
  | short c rest =>
    have hchars : (short c rest).text.toList = '-' :: c :: rest := by simp [text]
    have hc : c ≠ '-' := h
    unfold ofString
    rw [hchars]
    split
    · next heq => simp_all
    · next heq => simp_all
    · next hne => exact absurd rfl (hne c rest)

theorem formed_ofString (s : String) : (ofString s).Formed ∧ (ofString s).text = s := by
  unfold ofString
  split
  · next cs hs =>
    rw [List.span_eq_takeWhile_dropWhile]
    have hname : '=' ∉ cs.takeWhile (· != '=') := by
      intro hmem
      simpa using List.mem_takeWhile_imp hmem
    have hparts : cs = cs.takeWhile (· != '=') ++ cs.dropWhile (· != '=') := List.takeWhile_append_dropWhile.symm
    cases hv : cs.dropWhile (· != '=') with
    | nil =>
      rw [hv, List.append_nil] at hparts
      refine ⟨by simpa [Formed] using hname, String.toList_inj.1 ?_⟩
      simp [text, hs, ← hparts]
    | cons c value =>
      have hc : c = '=' := by
        have hhead := List.head?_dropWhile_not (· != '=') cs
        simpa [hv] using hhead
      rw [hv, hc] at hparts
      refine ⟨by simpa [Formed] using hname, String.toList_inj.1 ?_⟩
      simp [text, hs, ← hparts]
  · next c cs hne hs =>
    refine ⟨?_, String.toList_inj.1 (by simp [text, hs])⟩
    rintro rfl
    exact hne rfl
  · next hshort =>
    refine ⟨?_, rfl⟩
    cases hs : s.toList with
    | nil => exact Or.inr (by simp [hs])
    | cons c cs =>
      by_cases hc : c = '-'
      · cases cs with
        | nil => exact Or.inl (String.toList_inj.1 (by simp [hs, hc]))
        | cons d ds => exact absurd (by rw [hs, hc]) (hshort d ds)
      · exact Or.inr (by simp [hs, hc])

/-- **A text is one word, and a word has one text.** -/
theorem ofString_eq_iff {s : String} {w : Word} : ofString s = w ↔ w.Formed ∧ w.text = s := by
  constructor
  · rintro rfl
    exact formed_ofString s
  · rintro ⟨hw, rfl⟩
    exact ofString_text hw

end Word

/-! ## Options -/

/-- the option that a word gives, and the value where the word holds one itself -/
inductive Opt.Heads (o : Opt) : String → Option String → Prop
  | long : Heads o ("--" ++ o.name) none
  | longJoined (v : String) : Heads o ("--" ++ o.name ++ "=" ++ v) (some v)
  | short {c : Char} (hc : o.letter? = some c) : Heads o (String.ofList ['-', c]) none
  | shortJoined {c : Char} (hc : o.letter? = some c) (v : String) :
      Heads o (String.ofList ('-' :: c :: '=' :: v.toList)) (some v)
  /-- an equals sign in front of the value would be dropped -/
  | shortGlued {c d : Char} (hc : o.letter? = some c) (hd : d ≠ '=') (ds : List Char) :
      Heads o (String.ofList ('-' :: c :: d :: ds)) (some (String.ofList (d :: ds)))

/-- the words that give an option a value: one that holds both, or two -/
inductive Opt.Spelled (o : Opt) (v : String) : List String → Prop
  | joined {s : String} (hs : o.Heads s (some v)) : Spelled o v [s]
  | apart {s : String} (hs : o.Heads s none) (hv : StandsAlone v) : Spelled o v [s, v]

/-- a row of options with their values, and what stands behind it -/
inductive OptionRow (known : List Opt) (behind : List String) : List (Opt × String) → List String → Prop
  | done : OptionRow known behind [] behind
  | option {o : Opt} {v : String} {ws : List String} {given : List (Opt × String)} {rest : List String}
      (ho : o ∈ known) (hs : o.Spelled v ws) (hrest : OptionRow known behind given rest) :
      OptionRow known behind ((o, v) :: given) (ws ++ rest)

/-- a row of options that is all there is; `--` may close it -/
def OptionLine (known : List Opt) (given : List (Opt × String)) (args : List String) : Prop :=
  OptionRow known [] given args ∨ OptionRow known ["--"] given args

/-- no option is given twice, and no path is empty -/
structure Admissible (given : List (Opt × String)) : Prop where
  once : (given.map Prod.fst).Nodup
  path : ∀ v, (Opt.output, v) ∈ given → v ≠ ""

/-- the words that spell a command -/
inductive Command.SpelledBy : Command → List String → Prop
  | header {given : List (Opt × String)} {args : List String} (hline : OptionLine [.output] given args)
      (hgiven : Admissible given) : SpelledBy (.header (given.lookup .output)) ("header" :: args)
  | symbols {name : String} {given : List (Opt × String)} {args : List String} (hname : name = "symbols" ∨ name = "ls")
      (hline : OptionLine [.family, .kind] given args) (hgiven : Admissible given) :
      SpelledBy (.symbols (given.lookup .family) (given.lookup .kind)) (name :: args)

/-- a word that asks for help -/
inductive HelpWord : String → Prop
  | long : HelpWord "--help"
  | short (cs : List Char) : HelpWord (String.ofList ('-' :: 'h' :: cs))

/-- the words that ask for help: a word that does in place of the subcommand, `help` in front of a subcommand or of
nothing, or a word that does behind options without a fault -/
inductive AsksForHelp : List String → Prop
  | word {s : String} (hs : HelpWord s) (rest : List String) : AsksForHelp (s :: rest)
  | help : AsksForHelp ["help"]
  | topic {name : String} (hname : name ∈ Command.subcommands) : AsksForHelp ["help", name]
  | header {s : String} {rest : List String} {given : List (Opt × String)} {args : List String} (hs : HelpWord s)
      (hrow : OptionRow [.output] (s :: rest) given args) (hgiven : Admissible given) : AsksForHelp ("header" :: args)
  | symbols {name s : String} {rest : List String} {given : List (Opt × String)} {args : List String}
      (hname : name = "symbols" ∨ name = "ls") (hs : HelpWord s)
      (hrow : OptionRow [.family, .kind] (s :: rest) given args) (hgiven : Admissible given) : AsksForHelp (name :: args)

namespace Opt

theorem name_injective : Function.Injective name := by
  intro o p h
  cases o <;> cases p <;> first | rfl | exact absurd h (by decide)

theorem eq_of_letter?_eq {o p : Opt} {c : Char} (ho : o.letter? = some c) (hp : p.letter? = some c) : o = p := by
  cases o <;> cases p <;> simp_all [letter?]

theorem name_formed (o : Opt) : '=' ∉ o.name.toList := by
  cases o <;> decide

theorem letter?_formed {o : Opt} {c : Char} (h : o.letter? = some c) : c ≠ '-' := by
  cases o with
  | output =>
    cases h
    decide
  | family => cases h
  | kind => cases h

theorem name_ne_empty (o : Opt) : o.name ≠ "" := by
  cases o <;> decide

end Opt

theorem admissible_nil : Admissible [] := by
  constructor <;> simp

theorem Admissible.left {given new : List (Opt × String)} (h : Admissible (given ++ new)) : Admissible given := by
  refine ⟨?_, fun v hv => h.path v (List.mem_append_left new hv)⟩
  have honce := h.once
  rw [List.map_append] at honce
  exact honce.of_append_left

theorem admissible_concat_iff {given : List (Opt × String)} {o : Opt} {v : String} :
    Admissible (given ++ [(o, v)]) ↔ Admissible given ∧ o ∉ given.map Prod.fst ∧ ¬ (o = .output ∧ v = "") := by
  constructor
  · intro h
    have honce := h.once
    rw [List.map_append, List.map_singleton, List.nodup_append] at honce
    refine ⟨h.left, fun ho => honce.2.2 o ho o (List.mem_singleton_self o) rfl, ?_⟩
    rintro ⟨rfl, rfl⟩
    exact h.path "" (by simp) rfl
  · rintro ⟨h, ho, hpath⟩
    refine ⟨?_, ?_⟩
    · rw [List.map_append, List.map_singleton, ← List.concat_eq_append]
      exact h.once.concat ho
    · intro w hw
      rcases List.mem_append.1 hw with hw | hw
      · exact h.path w hw
      · obtain ⟨rfl, rfl⟩ := Prod.mk.inj (List.mem_singleton.1 hw)
        exact fun hempty => hpath ⟨rfl, hempty⟩

namespace Command

/-- a search for what at most one option has -/
theorem find?_eq_some_iff_of_unique {q : Opt → Bool} (hq : ∀ o p, q o = true → q p = true → o = p) {known : List Opt}
    {o : Opt} : known.find? q = some o ↔ o ∈ known ∧ q o = true := by
  constructor
  · intro h
    exact ⟨List.mem_of_find?_eq_some h, List.find?_some h⟩
  · rintro ⟨ho, hqo⟩
    obtain ⟨p, hp⟩ := Option.isSome_iff_exists.1 (List.find?_isSome.2 ⟨o, ho, hqo⟩)
    rw [hp, hq p o (List.find?_some hp) hqo]

theorem find?_name_eq_some_iff {known : List Opt} {name : String} {o : Opt} :
    known.find? (·.name == name) = some o ↔ o ∈ known ∧ o.name = name := by
  rw [find?_eq_some_iff_of_unique, beq_iff_eq]
  intro o p ho hp
  exact Opt.name_injective ((beq_iff_eq.1 ho).trans (beq_iff_eq.1 hp).symm)

theorem find?_letter?_eq_some_iff {known : List Opt} {c : Char} {o : Opt} :
    known.find? (·.letter? == some c) = some o ↔ o ∈ known ∧ o.letter? = some c := by
  rw [find?_eq_some_iff_of_unique, beq_iff_eq]
  intro o p ho hp
  exact Opt.eq_of_letter?_eq (beq_iff_eq.1 ho) (beq_iff_eq.1 hp)

theorem gluedValue_of_ne {d : Char} (hd : d ≠ '=') (ds : List Char) :
    gluedValue (d :: ds) = some (String.ofList (d :: ds)) := by
  unfold gluedValue
  split <;> simp_all

/-- what stands behind a letter, as a value -/
theorem heads_gluedValue {o : Opt} {c : Char} (hc : o.letter? = some c) (rest : List Char) :
    o.Heads (String.ofList ('-' :: c :: rest)) (gluedValue rest) := by
  cases rest with
  | nil => exact .short hc
  | cons d ds =>
    by_cases hd : d = '='
    · subst hd
      have hjoined := Opt.Heads.shortJoined hc (String.ofList ds)
      rw [String.toList_ofList] at hjoined
      exact hjoined
    · rw [gluedValue_of_ne hd]
      exact .shortGlued hc hd ds

theorem optionOf_long {known : List Opt} {o : Opt} (ho : o ∈ known) (value : Option String) :
    optionOf known (.ofString (Word.long o.name value).text) = .ok (o, value) := by
  rw [Word.ofString_text (w := .long o.name value) o.name_formed]
  simp only [optionOf, find?_name_eq_some_iff.2 ⟨ho, rfl⟩]

theorem optionOf_short {known : List Opt} {o : Opt} {c : Char} (ho : o ∈ known) (hc : o.letter? = some c)
    (rest : List Char) : optionOf known (.ofString (Word.short c rest).text) = .ok (o, gluedValue rest) := by
  rw [Word.ofString_text (w := .short c rest) (Opt.letter?_formed hc)]
  simp only [optionOf, find?_letter?_eq_some_iff.2 ⟨ho, hc⟩]

theorem optionOf_eq_ok_iff {known : List Opt} {s : String} {o : Opt} {value : Option String} :
    optionOf known (.ofString s) = .ok (o, value) ↔ o ∈ known ∧ o.Heads s value := by
  constructor
  · intro h
    obtain ⟨hformed, htext⟩ := Word.formed_ofString s
    cases hw : Word.ofString s with
    | plain t => simp [optionOf, hw] at h
    | long name v =>
      rw [hw] at h htext
      cases hfind : known.find? (·.name == name) with
      | none => simp [optionOf, hfind] at h
      | some p =>
        obtain ⟨hp, rfl⟩ := find?_name_eq_some_iff.1 hfind
        simp only [optionOf, hfind, Except.ok.injEq, Prod.mk.injEq] at h
        obtain ⟨rfl, rfl⟩ := h
        refine ⟨hp, ?_⟩
        rw [← htext]
        cases v with
        | none => exact .long
        | some v => exact .longJoined v
    | short c rest =>
      rw [hw] at h htext
      cases hfind : known.find? (·.letter? == some c) with
      | none => simp [optionOf, hfind] at h
      | some p =>
        obtain ⟨hp, hc⟩ := find?_letter?_eq_some_iff.1 hfind
        simp only [optionOf, hfind, Except.ok.injEq, Prod.mk.injEq] at h
        obtain ⟨rfl, rfl⟩ := h
        rw [← htext]
        exact ⟨hp, heads_gluedValue hc rest⟩
  · rintro ⟨ho, hs⟩
    cases hs with
    | long => exact optionOf_long ho none
    | longJoined v => exact optionOf_long ho (some v)
    | short hc => exact optionOf_short ho hc []
    | shortJoined hc v =>
      have hjoined := optionOf_short ho hc ('=' :: v.toList)
      rw [gluedValue, String.ofList_toList] at hjoined
      exact hjoined
    | shortGlued hc hd ds =>
      rw [← gluedValue_of_ne hd]
      exact optionOf_short ho hc _

theorem optionOf_eq_help_iff (known : List Opt) {s : String} :
    optionOf known (.ofString s) = .error .help ↔ HelpWord s := by
  constructor
  · intro h
    obtain ⟨-, htext⟩ := Word.formed_ofString s
    cases hw : Word.ofString s with
    | plain t => simp [optionOf, hw] at h
    | long name value =>
      rw [hw] at h htext
      cases hfind : known.find? (·.name == name) with
      | some o => simp [optionOf, hfind] at h
      | none =>
        simp only [optionOf, hfind, Except.error.injEq] at h
        split_ifs at h with hhelp
        simp only [Bool.and_eq_true, beq_iff_eq, Option.isNone_iff_eq_none] at hhelp
        rw [← htext, hhelp.1, hhelp.2]
        exact .long
    | short c rest =>
      rw [hw] at h htext
      cases hfind : known.find? (·.letter? == some c) with
      | some o => simp [optionOf, hfind] at h
      | none =>
        simp only [optionOf, hfind, Except.error.injEq] at h
        split_ifs at h with hhelp
        rw [← htext, beq_iff_eq.1 hhelp]
        exact .short rest
  · intro h
    cases h with
    | long =>
      have hw : Word.ofString "--help" = .long "help" none := by decide
      have hfind : known.find? (·.name == "help") = none := by
        rw [List.find?_eq_none]
        intro o _
        cases o <;> decide
      simp [hw, optionOf, hfind]
    | short cs =>
      have hw : Word.ofString (String.ofList ('-' :: 'h' :: cs)) = .short 'h' cs :=
        Word.ofString_text (w := .short 'h' cs) (show 'h' ≠ '-' by decide)
      have hfind : known.find? (·.letter? == some 'h') = none := by
        rw [List.find?_eq_none]
        intro o _
        cases o <;> decide
      rw [hw]
      simp [optionOf, hfind]

theorem heads_ne_dashes {o : Opt} {s : String} {value : Option String} (h : o.Heads s value) : s ≠ "--" := by
  rintro rfl
  have hword : Word.ofString "--" = .long "" none := by decide
  have hoption : optionOf [o] (.ofString "--") = .ok (o, value) := optionOf_eq_ok_iff.2 ⟨List.mem_singleton_self o, h⟩
  cases hfind : [o].find? (·.name == "") with
  | none => simp [hword, optionOf, hfind] at hoption
  | some p => exact p.name_ne_empty (find?_name_eq_some_iff.1 hfind).2

/-! ## Lines of options -/

theorem give_eq_ok_iff {given out : List (Opt × String)} {o : Opt} {v : String} (h : Admissible given) :
    give given o v = .ok out ↔ out = given ++ [(o, v)] ∧ Admissible out := by
  have hany : given.any (·.1 == o) = true ↔ o ∈ given.map Prod.fst := by simp
  unfold give
  split_ifs with hgiven hempty
  · constructor
    · rintro ⟨⟩
    · rintro ⟨rfl, hout⟩
      exact absurd (hany.1 hgiven) (admissible_concat_iff.1 hout).2.1
  · constructor
    · rintro ⟨⟩
    · rintro ⟨rfl, hout⟩
      exact absurd hempty (admissible_concat_iff.1 hout).2.2
  · have hout : Admissible (given ++ [(o, v)]) := admissible_concat_iff.2 ⟨h, fun ho => hgiven (hany.2 ho), hempty⟩
    constructor
    · rintro ⟨⟩
      exact ⟨rfl, hout⟩
    · rintro ⟨rfl, -⟩
      rfl

/-- one option: it is given its value, and the line goes on behind it -/
theorem assignments_spelled {known : List Opt} {o : Opt} {v : String} {ws : List String} (ho : o ∈ known)
    (hs : o.Spelled v ws) (given : List (Opt × String)) (rest : List String) :
    assignments known given (ws ++ rest) = (give given o v).bind fun given => assignments known given rest := by
  cases hs with
  | @joined s hs =>
    rw [List.singleton_append, assignments, if_neg (heads_ne_dashes hs), optionOf_eq_ok_iff.2 ⟨ho, hs⟩]
    simp only []
    cases give given o v <;> rfl
  | @apart s hs hv =>
    have hword : Word.ofString v = .plain v := Word.ofString_text (w := .plain v) hv
    rw [List.cons_append, List.singleton_append, assignments, if_neg (heads_ne_dashes hs), optionOf_eq_ok_iff.2 ⟨ho, hs⟩]
    simp only [hword]
    cases give given o v <;> rfl

/-- a row of options: each is given its value, and reading goes on behind it -/
theorem assignments_row {known : List Opt} {behind args : List String} {given new : List (Opt × String)}
    (hrow : OptionRow known behind new args) (hnew : Admissible (given ++ new)) :
    assignments known given args = assignments known (given ++ new) behind := by
  induction hrow generalizing given with
  | done => rw [List.append_nil]
  | @option o v ws new rest ho hs hrest ih =>
    have hsplit : given ++ (o, v) :: new = given ++ [(o, v)] ++ new := by simp
    rw [hsplit] at hnew ⊢
    rw [assignments_spelled ho hs, (give_eq_ok_iff hnew.left.left).2 ⟨rfl, hnew.left⟩]
    exact ih hnew

/-- no option that may still be given stands at the front -/
def RowEnds (known : List Opt) (given : List (Opt × String)) (args : List String) : Prop :=
  ∀ o ∈ known, ∀ v ws rest, o.Spelled v ws → args = ws ++ rest → ¬ Admissible (given ++ [(o, v)])

/-- every line begins with a row of options that cannot be prolonged -/
theorem exists_row (known : List Opt) {given : List (Opt × String)} (hgiven : Admissible given) (args : List String) :
    ∃ new behind, OptionRow known behind new args ∧ Admissible (given ++ new) ∧ RowEnds known (given ++ new) behind := by
  -- every option has a word, so that the rest of the line is shorter
  induction hn : args.length using Nat.strong_induction_on generalizing given args with
  | _ n ih =>
    by_cases hends : RowEnds known given args
    · exact ⟨[], args, .done, by rwa [List.append_nil], by rwa [List.append_nil]⟩
    · simp only [RowEnds, not_forall, not_not] at hends
      obtain ⟨o, ho, v, ws, rest, hs, rfl, hnext⟩ := hends
      have hshorter : rest.length < n := by
        have hword : 0 < ws.length := by cases hs <;> simp
        rw [List.length_append] at hn
        omega
      obtain ⟨new, behind, hrow, hnew, hends⟩ := ih rest.length hshorter hnext rest rfl
      rw [List.append_assoc, List.singleton_append] at hnew hends
      exact ⟨(o, v) :: new, behind, .option ho hs hrow, hnew, hends⟩

/-- an option that may not be given, or not with this value -/
theorem assignments_of_refused {known : List Opt} {given : List (Opt × String)} {o : Opt} {v : String}
    {ws rest : List String} (hgiven : Admissible given) (ho : o ∈ known) (hs : o.Spelled v ws)
    (hrefused : ¬ Admissible (given ++ [(o, v)])) :
    ∃ e, assignments known given (ws ++ rest) = .error e ∧ e ≠ .help := by
  have hgive : ∃ e, give given o v = .error e ∧ e ≠ .help := by
    unfold give
    split_ifs with hany hempty
    · exact ⟨.repeatedOption o.name, rfl, by rintro ⟨⟩⟩
    · exact ⟨.emptyPath, rfl, by rintro ⟨⟩⟩
    · exact absurd (admissible_concat_iff.2 ⟨hgiven, by simpa using hany, hempty⟩) hrefused
  obtain ⟨e, he, hne⟩ := hgive
  refine ⟨e, ?_, hne⟩
  rw [assignments_spelled ho hs, he]
  rfl

/-- where no further option can be read, the line ends, closes or fails -/
theorem assignments_of_rowEnds {known : List Opt} {given : List (Opt × String)} {args : List String}
    (hgiven : Admissible given) (hends : RowEnds known given args) :
    ((args = [] ∨ args = ["--"]) ∧ assignments known given args = .ok given) ∨
      ∃ e, assignments known given args = .error e ∧ (e = .help → ∃ s rest, args = s :: rest ∧ HelpWord s) := by
  cases args with
  | nil => exact Or.inl ⟨Or.inl rfl, by rw [assignments]⟩
  | cons s rest =>
    by_cases hdashes : s = "--"
    · subst hdashes
      cases rest with
      | nil => exact Or.inl ⟨Or.inr rfl, by simp [assignments, noneAfter]⟩
      | cons t rest => exact Or.inr ⟨.unexpectedArgument t, by simp [assignments, noneAfter], by rintro ⟨⟩⟩
    · right
      rcases hoption : optionOf known (.ofString s) with e | ⟨o, value⟩
      · refine ⟨e, by simp [assignments, hdashes, hoption], ?_⟩
        rintro rfl
        exact ⟨s, rest, rfl, (optionOf_eq_help_iff _).1 hoption⟩
      · obtain ⟨ho, hs⟩ := optionOf_eq_ok_iff.1 hoption
        cases value with
        | some v =>
          obtain ⟨e, he, hne⟩ := assignments_of_refused hgiven ho (.joined hs) (hends o ho v [s] rest (.joined hs) rfl)
          exact ⟨e, he, fun h => absurd h hne⟩
        | none =>
          cases rest with
          | nil => exact ⟨.missingValue o.name, by simp [assignments, hdashes, hoption], by rintro ⟨⟩⟩
          | cons v rest =>
            cases hword : Word.ofString v with
            | plain t =>
              obtain ⟨hv, rfl⟩ := Word.ofString_eq_iff.1 hword
              have hspelled : o.Spelled t [s, t] := .apart hs hv
              obtain ⟨e, he, hne⟩ := assignments_of_refused hgiven ho hspelled (hends o ho t [s, t] rest hspelled rfl)
              exact ⟨e, he, fun h => absurd h hne⟩
            | long name value =>
              exact ⟨.missingValue o.name, by simp [assignments, hdashes, hoption, hword], by rintro ⟨⟩⟩
            | short c cs =>
              exact ⟨.missingValue o.name, by simp [assignments, hdashes, hoption, hword], by rintro ⟨⟩⟩

/-- **Options are read as the grammar has them**, after those given before. -/
theorem assignments_eq_ok_iff {known : List Opt} {given out : List (Opt × String)} {args : List String}
    (hgiven : Admissible given) :
    assignments known given args = .ok out ↔ ∃ new, OptionLine known new args ∧ out = given ++ new ∧ Admissible out := by
  constructor
  · intro h
    obtain ⟨new, behind, hrow, hnew, hends⟩ := exists_row known hgiven args
    rw [assignments_row hrow hnew] at h
    rcases assignments_of_rowEnds hnew hends with ⟨hbehind, hok⟩ | ⟨e, herror, -⟩
    · rw [hok] at h
      cases h
      refine ⟨new, ?_, rfl, hnew⟩
      rcases hbehind with rfl | rfl
      · exact Or.inl hrow
      · exact Or.inr hrow
    · rw [herror] at h
      cases h
  · rintro ⟨new, hrow | hrow, rfl, hnew⟩
    · rw [assignments_row hrow hnew, assignments]
    · rw [assignments_row hrow hnew, assignments, if_pos rfl, noneAfter]

/-- help is asked for behind a row of options without a fault -/
theorem assignments_eq_help_iff {known : List Opt} {given : List (Opt × String)} {args : List String}
    (hgiven : Admissible given) :
    assignments known given args = .error .help ↔
      ∃ new s rest, HelpWord s ∧ OptionRow known (s :: rest) new args ∧ Admissible (given ++ new) := by
  constructor
  · intro h
    obtain ⟨new, behind, hrow, hnew, hends⟩ := exists_row known hgiven args
    rw [assignments_row hrow hnew] at h
    rcases assignments_of_rowEnds hnew hends with ⟨-, hok⟩ | ⟨e, herror, hhelp⟩
    · rw [hok] at h
      cases h
    · rw [herror] at h
      cases h
      obtain ⟨s, rest, rfl, hs⟩ := hhelp rfl
      exact ⟨new, s, rest, hs, hrow, hnew⟩
  · rintro ⟨new, s, rest, hs, hrow, hnew⟩
    have hdashes : s ≠ "--" := by
      rintro rfl
      have hword : optionOf [] (.ofString "--") = .error .help := (optionOf_eq_help_iff _).2 hs
      exact absurd hword (by decide)
    rw [assignments_row hrow hnew, assignments, if_neg hdashes, (optionOf_eq_help_iff _).2 hs]

/-! ## Commands -/

theorem readLine_eq_ok_iff {known : List Opt} {args : List String} {f : List (Opt × String) → Command} {c : Command} :
    (do return f (← assignments known [] args) : Except Refusal Command) = .ok c ↔
      ∃ given, OptionLine known given args ∧ Admissible given ∧ f given = c := by
  constructor
  · intro h
    cases hread : assignments known [] args with
    | error e =>
      rw [hread] at h
      cases h
    | ok given =>
      rw [hread] at h
      cases h
      obtain ⟨_, hline, rfl, hadmissible⟩ := (assignments_eq_ok_iff admissible_nil).1 hread
      exact ⟨_, hline, hadmissible, rfl⟩
  · rintro ⟨given, hline, hadmissible, rfl⟩
    rw [(assignments_eq_ok_iff admissible_nil).2 ⟨given, hline, rfl, hadmissible⟩]
    rfl

theorem readLine_eq_help_iff {known : List Opt} {args : List String} {f : List (Opt × String) → Command} :
    (do return f (← assignments known [] args) : Except Refusal Command) = .error .help ↔
      ∃ given s rest, HelpWord s ∧ OptionRow known (s :: rest) given args ∧ Admissible given := by
  have hhelp := @assignments_eq_help_iff known [] args admissible_nil
  simp only [List.nil_append] at hhelp
  rw [← hhelp]
  cases assignments known [] args with
  | error e =>
    constructor
    · rintro ⟨⟩
      rfl
    · rintro ⟨⟩
      rfl
  | ok given =>
    constructor
    · rintro ⟨⟩
    · rintro ⟨⟩

/-- **Parsing accepts exactly the words that spell a command**, and gives that command. -/
theorem parse_eq_ok_iff {args : List String} {c : Command} : parse args = .ok c ↔ c.SpelledBy args := by
  constructor
  · intro h
    unfold parse at h
    split at h
    · cases h
    · obtain ⟨given, hline, hgiven, rfl⟩ := readLine_eq_ok_iff.1 h
      exact .header hline hgiven
    · obtain ⟨given, hline, hgiven, rfl⟩ := readLine_eq_ok_iff.1 h
      exact .symbols (Or.inl rfl) hline hgiven
    · obtain ⟨given, hline, hgiven, rfl⟩ := readLine_eq_ok_iff.1 h
      exact .symbols (Or.inr rfl) hline hgiven
    · cases h
    · split at h <;> cases h
  · intro h
    cases h with
    | header hline hgiven => exact readLine_eq_ok_iff.2 ⟨_, hline, hgiven, rfl⟩
    | symbols hname hline hgiven =>
      rcases hname with rfl | rfl
      · exact readLine_eq_ok_iff.2 ⟨_, hline, hgiven, rfl⟩
      · exact readLine_eq_ok_iff.2 ⟨_, hline, hgiven, rfl⟩

/-- **Parsing answers with help exactly where help is asked for.** -/
theorem parse_eq_help_iff {args : List String} : parse args = .error .help ↔ AsksForHelp args := by
  constructor
  · intro h
    unfold parse at h
    split at h
    · cases h
    · obtain ⟨given, s, rest, hs, hrow, hgiven⟩ := readLine_eq_help_iff.1 h
      exact .header hs hrow hgiven
    · obtain ⟨given, s, rest, hs, hrow, hgiven⟩ := readLine_eq_help_iff.1 h
      exact .symbols (Or.inl rfl) hs hrow hgiven
    · obtain ⟨given, s, rest, hs, hrow, hgiven⟩ := readLine_eq_help_iff.1 h
      exact .symbols (Or.inr rfl) hs hrow hgiven
    · next args =>
      cases args with
      | nil => exact .help
      | cons name rest =>
        cases rest with
        | nil =>
          by_cases hname : name ∈ subcommands
          · exact .topic hname
          · simp [parseHelp, hname] at h
        | cons inner rest =>
          by_cases hname : name ∈ subcommands <;> simp [parseHelp, hname] at h
    · next name rest _ _ _ _ =>
      refine .word ((optionOf_eq_help_iff []).1 ?_) rest
      cases hw : Word.ofString name with
      | plain s => simp [hw] at h
      | long option value => simpa [hw, optionOf] using h
      | short c cs => simpa [hw, optionOf] using h
  · intro h
    cases h with
    | @word s hs rest =>
      have hword := (optionOf_eq_help_iff []).2 hs
      have hother : s ∉ subcommands := by
        intro hmem
        have htable : ∀ name ∈ subcommands, optionOf [] (.ofString name) ≠ .error .help := by decide
        exact htable s hmem hword
      simp only [subcommands, List.mem_cons, List.not_mem_nil, or_false, not_or] at hother
      obtain ⟨hheader, hsymbols, hls, hhelp⟩ := hother
      cases hw : Word.ofString s with
      | plain t => simp [hw, optionOf] at hword
      | long name value =>
        rw [hw] at hword
        simp only [parse, hw, hword]
      | short c cs =>
        rw [hw] at hword
        simp only [parse, hw, hword]
    | help => rfl
    | topic hname => simp [parse, parseHelp, hname]
    | header hs hrow hgiven => exact readLine_eq_help_iff.2 ⟨_, _, _, hs, hrow, hgiven⟩
    | symbols hname hs hrow hgiven =>
      rcases hname with rfl | rfl
      · exact readLine_eq_help_iff.2 ⟨_, _, _, hs, hrow, hgiven⟩
      · exact readLine_eq_help_iff.2 ⟨_, _, _, hs, hrow, hgiven⟩

end Command

end CallSurface
