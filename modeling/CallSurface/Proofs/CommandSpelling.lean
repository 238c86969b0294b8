/-
Spellings of one command run alike.

A value that begins with neither a dash nor an equals sign can follow its option in every form the option has: as the next
word, behind `=`, or glued to a short option. Each form is a spelling of the grammar (`Opt.spelled_long`,
`Opt.spelled_short`), two options spell one command in either order (`spelledBy_symbols`), and a run sees nothing of a
line but the command that it spells (`runWords_eq_of_spelled`).

Main result: `equivalent_spellings_run_alike`.
-/
import CallSurface.Proofs.CommandOutcome

namespace CallSurface

/-! ## Forms of an option -/

/-- a value with a first character that is neither a dash nor an equals sign -/
structure PlainValue (v : String) : Prop where
  nonempty : v ≠ ""
  noDash : v.toList.head? ≠ some '-'
  noEquals : v.toList.head? ≠ some '='

theorem PlainValue.standsAlone {v : String} (hv : PlainValue v) : StandsAlone v :=
  Or.inr hv.noDash

theorem PlainValue.exists_cons {v : String} (hv : PlainValue v) : ∃ c cs, v = String.ofList (c :: cs) ∧ c ≠ '=' := by
  cases hchars : v.toList with
  | nil => exact absurd (String.toList_inj.1 hchars) hv.nonempty
  | cons c cs =>
    refine ⟨c, cs, by rw [← hchars, String.ofList_toList], ?_⟩
    rintro rfl
    exact hv.noEquals (by rw [hchars]; rfl)

/-- a long option takes its value as the next word or behind an equals sign -/
def longForms (name value : String) : List (List String) :=
  [["--" ++ name, value], ["--" ++ name ++ "=" ++ value]]

/-- a short option also takes it glued on -/
def shortForms (letter : Char) (value : String) : List (List String) :=
  [["-" ++ letter.toString, value], ["-" ++ letter.toString ++ value], ["-" ++ letter.toString ++ "=" ++ value]]

theorem Opt.spelled_long (o : Opt) {v : String} (hv : PlainValue v) : ∀ ws ∈ longForms o.name v, o.Spelled v ws := by
  intro ws hws
  simp only [longForms, List.mem_cons, List.not_mem_nil, or_false] at hws
  rcases hws with rfl | rfl
  · exact .apart .long hv.standsAlone
  · exact .joined (.longJoined v)

theorem Opt.spelled_short {o : Opt} {c : Char} (hc : o.letter? = some c) {v : String} (hv : PlainValue v) :
    ∀ ws ∈ shortForms c v, o.Spelled v ws := by
  intro ws hws
  simp only [shortForms, List.mem_cons, List.not_mem_nil, or_false] at hws
  rcases hws with rfl | rfl | rfl
  · have hword : "-" ++ c.toString = String.ofList ['-', c] := String.toList_inj.1 (by simp)
    rw [hword]
    exact .apart (.short hc) hv.standsAlone
  · obtain ⟨d, ds, rfl, hd⟩ := hv.exists_cons
    have hword : "-" ++ c.toString ++ String.ofList (d :: ds) = String.ofList ('-' :: c :: d :: ds) :=
      String.toList_inj.1 (by simp)
    rw [hword]
    exact .joined (.shortGlued hc hd ds)
  · have hword : "-" ++ c.toString ++ "=" ++ v = String.ofList ('-' :: c :: '=' :: v.toList) :=
      String.toList_inj.1 (by simp)
    rw [hword]
    exact .joined (.shortJoined hc v)

/-! ## Lines -/

/-- the lines that ask for the header in a file: `--output P`, `--output=P`, `-o P`, `-oP` and `-o=P` -/
def headerLines (path : String) : List (List String) :=
  (longForms "output" path ++ shortForms 'o' path).map ("header" :: ·)

/-- the lines that ask for the prototypes of a family and of a kind, in both orders -/
def listingLines (family kind : String) : List (List String) :=
  ["symbols", "ls"].flatMap fun name =>
    (longForms "family" family).flatMap fun ws =>
      (longForms "kind" kind).flatMap fun ws' => [name :: (ws ++ ws'), name :: (ws' ++ ws)]

namespace Command

theorem spelledBy_header {path : String} {ws : List String} (hpath : path ≠ "") (hs : Opt.output.Spelled path ws) :
    SpelledBy (.header (some path)) ("header" :: ws) := by
  have hrow : OptionRow [.output] [] [(.output, path)] (ws ++ []) := .option (by decide) hs .done
  rw [List.append_nil] at hrow
  exact .header (Or.inl hrow) ⟨by simp, by simpa using hpath⟩

/-- the order of two options does not matter -/
theorem spelledBy_symbols {name family kind : String} {ws ws' : List String} (hname : name = "symbols" ∨ name = "ls")
    (hfamily : Opt.family.Spelled family ws) (hkind : Opt.kind.Spelled kind ws') :
    SpelledBy (.symbols (some family) (some kind)) (name :: (ws ++ ws')) ∧
      SpelledBy (.symbols (some family) (some kind)) (name :: (ws' ++ ws)) := by
  have hrow : OptionRow [.family, .kind] [] [(.family, family), (.kind, kind)] (ws ++ (ws' ++ [])) :=
    .option (by decide) hfamily (.option (by decide) hkind .done)
  have hrow' : OptionRow [.family, .kind] [] [(.kind, kind), (.family, family)] (ws' ++ (ws ++ [])) :=
    .option (by decide) hkind (.option (by decide) hfamily .done)
  rw [List.append_nil] at hrow hrow'
  exact ⟨.symbols hname (Or.inl hrow) ⟨by simp, by simp⟩, .symbols hname (Or.inl hrow') ⟨by simp, by simp⟩⟩

theorem spelledBy_of_mem_headerLines {path : String} (hpath : PlainValue path) :
    ∀ line ∈ headerLines path, SpelledBy (.header (some path)) line := by
  intro line hline
  obtain ⟨ws, hws, rfl⟩ := List.mem_map.1 hline
  apply spelledBy_header hpath.nonempty
  rcases List.mem_append.1 hws with hlong | hshort
  · exact Opt.output.spelled_long hpath ws hlong
  · exact Opt.spelled_short rfl hpath ws hshort

theorem spelledBy_of_mem_listingLines {family kind : String} (hfamily : PlainValue family) (hkind : PlainValue kind) :
    ∀ line ∈ listingLines family kind, SpelledBy (.symbols (some family) (some kind)) line := by
  intro line hline
  simp only [listingLines, List.mem_flatMap] at hline
  obtain ⟨name, hname, ws, hws, ws', hws', hline⟩ := hline
  obtain ⟨horder, hswapped⟩ := spelledBy_symbols (by simpa using hname) (Opt.family.spelled_long hfamily ws hws)
    (Opt.kind.spelled_long hkind ws' hws')
  rcases List.mem_pair.1 hline with rfl | rfl
  · exact horder
  · exact hswapped

/-- a run sees nothing of a line but the command that it spells -/
theorem runWords_eq_of_spelled (setting : Option String) {line line' : List String} {c : Command} (h : c.SpelledBy line)
    (h' : c.SpelledBy line') : runWords setting line = runWords setting line' := by
  rw [runWords_of_spelled setting h, runWords_of_spelled setting h']

end Command

/-- **Equivalent spellings of a command give equal runs.** Take a path, a family and a kind that begin with neither a dash
nor an equals sign. All five lines that ask for the header at the path spell this command, and their runs leave the same
exit code, standard output, files and standard error under every log setting. So do all lines that ask for the family and
the kind, by either name of the subcommand, in either form of each option and in either order. -/
theorem equivalent_spellings_run_alike (setting : Option String) {path family kind : String} (hpath : PlainValue path)
    (hfamily : PlainValue family) (hkind : PlainValue kind) :
    (∀ line ∈ headerLines path, Command.parse line = .ok (.header (some path)) ∧
      ∀ line' ∈ headerLines path, Command.runWords setting line = Command.runWords setting line') ∧
    ∀ line ∈ listingLines family kind, Command.parse line = .ok (.symbols (some family) (some kind)) ∧
      ∀ line' ∈ listingLines family kind, Command.runWords setting line = Command.runWords setting line' := by
  have hheader := Command.spelledBy_of_mem_headerLines hpath
  have hlisting := Command.spelledBy_of_mem_listingLines hfamily hkind
  constructor
  · intro line hline
    refine ⟨Command.parse_eq_ok_iff.2 (hheader line hline), fun line' hline' => ?_⟩
    exact Command.runWords_eq_of_spelled setting (hheader line hline) (hheader line' hline')
  · intro line hline
    refine ⟨Command.parse_eq_ok_iff.2 (hlisting line hline), fun line' hline' => ?_⟩
    exact Command.runWords_eq_of_spelled setting (hlisting line hline) (hlisting line' hline')

/-- a path with an equals sign inside, and names that look like a subcommand and an option -/
theorem equivalent_spellings_run_alike_lookalikes :
    let path := "header=x"
    let family := "ls"
    let kind := "family"
    (PlainValue path ∧ PlainValue family ∧ PlainValue kind) ∧
    Command.runWords (some "debug") ["header", "-oheader=x"] =
      Command.runWords (some "debug") ["header", "--output", "header=x"] ∧
    Command.runWords none ["ls", "--kind=family", "--family", "ls"] =
      Command.runWords none ["symbols", "--family=ls", "--kind", "family"] := by
  intro path family kind
  have hpath : PlainValue path := ⟨by decide, by decide, by decide⟩
  have hfamily : PlainValue family := ⟨by decide, by decide, by decide⟩
  have hkind : PlainValue kind := ⟨by decide, by decide, by decide⟩
  obtain ⟨hheader, -⟩ := equivalent_spellings_run_alike (some "debug") hpath hfamily hkind
  obtain ⟨-, hlisting⟩ := equivalent_spellings_run_alike none hpath hfamily hkind
  exact ⟨⟨hpath, hfamily, hkind⟩, (hheader _ (by decide)).2 _ (by decide), (hlisting _ (by decide)).2 _ (by decide)⟩

end CallSurface
