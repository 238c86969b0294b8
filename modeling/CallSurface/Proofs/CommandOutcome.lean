/-
What a command line leaves behind: all it asks for, or nothing.

`Command.Achieves` says what a command is to leave: the header on standard output, the header in one new file, or a
listing. The parts are what becomes of a path that does not lead out of the working directory
(`OutputPath.write_eq_ok_iff`), what the names of a listing stand for (`Selection.ofNames_cases`) and which symbols a
selection takes (`Selection.accepts_iff`). The main result, `command_line_all_or_nothing`, joins them with the grammar of
the command line.
-/
import CallSurface.Command.Run
import CallSurface.Proofs.CommandGrammar
import CallSurface.Proofs.Prototype

namespace CallSurface

/-! ## Paths -/

namespace OutputPath

/-- does the walk keep to the directory where it started, or below it? It has come `depth` directories down. -/
def staysBelow (depth : Nat) : List String → Bool
  | [] => true
  | name :: rest =>
    if name = "." then staysBelow depth rest
    else if name = ".." then
      match depth with
      | 0 => false
      | depth + 1 => staysBelow depth rest
    else staysBelow (depth + 1) rest

/-- a path that does not lead out of the working directory -/
def staysInside (path : String) : Bool :=
  !path.startsWith "/" && staysBelow 0 (components path)

/-- the path stands for a new file of that name in the working directory -/
structure Creates (path name : String) : Prop where
  components_eq : ∃ n, components path = List.replicate n "." ++ [name]
  proper : name ≠ "." ∧ name ≠ ".."
  noSlash : path.endsWith "/" = false
  nameShort : name.utf8ByteSize ≤ nameLimit
  pathShort : path.utf8ByteSize < pathLimit

/-- in the empty directory, a walk succeeds if dots lead to a single name -/
theorem walk_eq_ok_iff {slash : Bool} {above : List Place} {names : List String} {landing : Landing}
    (h : staysBelow 0 names = true) :
    walk slash .workingDirectory above names = .ok landing ↔
      ∃ n name, names = List.replicate n "." ++ [name] ∧ (name ≠ "." ∧ name ≠ "..") ∧ slash = false ∧
        name.utf8ByteSize ≤ nameLimit ∧ landing = .inside name := by
  induction names with
  | nil => simp [walk]
  | cons first rest ih =>
    by_cases hdot : first = "."
    · subst hdot
      have hrest : staysBelow 0 rest = true := by simpa [staysBelow] using h
      have hwalk : walk slash .workingDirectory above ("." :: rest) = walk slash .workingDirectory above rest := by
        simp [walk, Place.entries?]
      rw [hwalk, ih hrest]
      constructor
      · rintro ⟨n, name, rfl, hname⟩
        exact ⟨n + 1, name, by simp [List.replicate_succ], hname⟩
      · rintro ⟨n, name, hnames, hname⟩
        cases n with
        | zero =>
          obtain ⟨rfl, -⟩ := List.cons.inj hnames
          exact absurd rfl hname.1.1
        | succ n =>
          rw [List.replicate_succ, List.cons_append] at hnames
          exact ⟨n, name, (List.cons.inj hnames).2, hname⟩
    · have hup : first ≠ ".." := by
        rintro rfl
        simp [staysBelow] at h
      -- nothing exists in the working directory, so that the walk ends at the first name
      have hwalk : walk slash .workingDirectory above (first :: rest) =
          if rest.isEmpty && slash then .error .isDirectory
          else if nameLimit < first.utf8ByteSize then .error .nameTooLong
          else if rest.isEmpty then .ok (.inside first) else .error .noSuchFile := by
        simp only [walk, Place.entries?, if_neg hdot, if_neg hup, List.lookup_nil, createIn]
      rw [hwalk]
      constructor
      · intro hok
        split_ifs at hok with hslash hlong hlast
        rw [hlast, Bool.true_and, Bool.not_eq_true] at hslash
        cases hok
        exact ⟨0, first, by simpa using hlast, ⟨hdot, hup⟩, hslash, Nat.le_of_not_lt hlong, rfl⟩
      · rintro ⟨n, name, hnames, -, rfl, hshort, rfl⟩
        cases n with
        | zero =>
          obtain ⟨rfl, rfl⟩ := List.cons.inj hnames
          simp [Nat.not_lt.2 hshort]
        | succ n =>
          rw [List.replicate_succ, List.cons_append] at hnames
          exact absurd (List.cons.inj hnames).1 hdot

/-- **What becomes of a path that stays inside**: the file it stands for, and otherwise an error. -/
theorem write_eq_ok_iff {path : String} {landing : Landing} (h : staysInside path = true) :
    write path = .ok landing ↔ ∃ name, Creates path name ∧ landing = .inside name := by
  obtain ⟨hroot, hbelow⟩ := Bool.and_eq_true_iff.1 h
  rw [Bool.not_eq_true'] at hroot
  unfold write
  by_cases hempty : path.isEmpty = true
  · rw [if_pos hempty]
    constructor
    · rintro ⟨⟩
    · rintro ⟨name, hcreates, -⟩
      obtain ⟨n, hn⟩ := hcreates.components_eq
      have hnone : components "" = [] := by decide
      rw [String.isEmpty_iff.1 hempty, hnone] at hn
      simp at hn
  · rw [if_neg hempty]
    by_cases hlong : pathLimit ≤ path.utf8ByteSize
    · rw [if_pos hlong]
      constructor
      · rintro ⟨⟩
      · rintro ⟨name, hcreates, -⟩
        exact absurd hlong (Nat.not_le.2 hcreates.pathShort)
    · rw [if_neg hlong]
      simp only [hroot, Bool.false_eq_true, ↓reduceIte]
      rw [walk_eq_ok_iff hbelow]
      constructor
      · rintro ⟨n, name, hnames, hproper, hslash, hshort, rfl⟩
        exact ⟨name, ⟨⟨n, hnames⟩, hproper, hslash, hshort, Nat.lt_of_not_le hlong⟩, rfl⟩
      · rintro ⟨name, ⟨⟨n, hnames⟩, hproper, hslash, hshort, -⟩, rfl⟩
        exact ⟨n, name, hnames, hproper, hslash, hshort, rfl⟩

end OutputPath

/-! ## Names -/

theorem Family.mem_all (f : Family) : f ∈ all := by
  cases f <;> decide

theorem Family.name_injective : Function.Injective name := by
  intro f g h
  cases f <;> cases g <;> first | rfl | exact absurd h (by decide)

theorem Family.mem_names {f : Option Family} : ∀ n ∈ f.map name, n ∈ all.map name := by
  intro n hn
  obtain ⟨g, -, rfl⟩ := Option.mem_map.1 hn
  exact List.mem_map_of_mem g.mem_all

theorem Kind.mem_names {k : Option Kind} : ∀ n ∈ k.map name, n ∈ all.map name := by
  intro n hn
  obtain ⟨l, -, rfl⟩ := Option.mem_map.1 hn
  exact List.mem_map_of_mem l.mem_all

/-- a search by name finds what has the name, and fails if nothing has -/
theorem find?_name_cases {α : Type} (name : α → String) (l : List α) (s : String) :
    (∃ a, s = name a ∧ l.find? (name · == s) = some a) ∨ (s ∉ l.map name ∧ l.find? (name · == s) = none) := by
  cases hfind : l.find? (name · == s) with
  | some a =>
    have hname := List.find?_some hfind
    exact Or.inl ⟨a, (beq_iff_eq.1 hname).symm, rfl⟩
  | none =>
    refine Or.inr ⟨?_, rfl⟩
    intro hmem
    obtain ⟨a, ha, rfl⟩ := List.mem_map.1 hmem
    exact absurd (List.find?_eq_none.1 hfind a ha) (by simp)

theorem Family.lookup_cases (s : String) :
    (∃ f : Family, s = f.name ∧ lookup s = .ok f) ∨ (s ∉ all.map name ∧ lookup s = .error (.unknownFamily s)) := by
  unfold lookup
  rcases find?_name_cases name all s with ⟨f, hname, hfind⟩ | ⟨hname, hfind⟩
  · exact Or.inl ⟨f, hname, by rw [hfind]⟩
  · exact Or.inr ⟨hname, by rw [hfind]⟩

theorem Kind.lookup_cases (s : String) :
    (∃ k : Kind, s = k.name ∧ lookup s = .ok k) ∨ (s ∉ all.map name ∧ lookup s = .error (.unknownKind s)) := by
  unfold lookup ofName?
  rcases find?_name_cases name all s with ⟨k, hname, hfind⟩ | ⟨hname, hfind⟩
  · exact Or.inl ⟨k, hname, by rw [hfind]⟩
  · exact Or.inr ⟨hname, by rw [hfind]⟩

namespace Selection

/-- a part of a selection that may be absent -/
theorem mapM_lookup_cases {α : Type} {name : α → String} {names : List String} {lookup : String → Except LookupError α}
    {unknown : String → LookupError}
    (h : ∀ s, (∃ a, s = name a ∧ lookup s = .ok a) ∨ (s ∉ names ∧ lookup s = .error (unknown s))) (part : Option String) :
    (∃ a : Option α, part = a.map name ∧ part.mapM lookup = .ok a) ∨
      ∃ s, part = some s ∧ s ∉ names ∧ part.mapM lookup = .error (unknown s) := by
  cases part with
  | none => exact Or.inl ⟨none, rfl, rfl⟩
  | some s =>
    rcases h s with ⟨a, hname, hlookup⟩ | ⟨hname, hlookup⟩
    · refine Or.inl ⟨some a, by rw [hname]; rfl, ?_⟩
      rw [Option.mapM_some, hlookup]
      rfl
    · refine Or.inr ⟨s, rfl, hname, ?_⟩
      rw [Option.mapM_some, hlookup]
      rfl

/-- **What the names of a listing stand for.** An unknown family is reported before an unknown kind. -/
theorem ofNames_cases (family kind : Option String) :
    (∃ f : Selection, family = f.family.map Family.name ∧ kind = f.kind.map Kind.name ∧ ofNames family kind = .ok f) ∨
      (∃ s, family = some s ∧ s ∉ Family.all.map Family.name ∧ ofNames family kind = .error (.unknownFamily s)) ∨
      ∃ s, kind = some s ∧ s ∉ Kind.all.map Kind.name ∧ (∀ f ∈ family, f ∈ Family.all.map Family.name) ∧
        ofNames family kind = .error (.unknownKind s) := by
  unfold ofNames
  rcases mapM_lookup_cases Family.lookup_cases family with ⟨f, hf, hfamily⟩ | ⟨s, hs, hunknown, hfamily⟩
  · rcases mapM_lookup_cases Kind.lookup_cases kind with ⟨k, hk, hkind⟩ | ⟨s, hs, hunknown, hkind⟩
    · refine Or.inl ⟨⟨f, k⟩, hf, hk, ?_⟩
      rw [hfamily, hkind]
      rfl
    · refine Or.inr (Or.inr ⟨s, hs, hunknown, hf ▸ Family.mem_names, ?_⟩)
      rw [hfamily, hkind]
      rfl
  · refine Or.inr (Or.inl ⟨s, hs, hunknown, ?_⟩)
    rw [hfamily]
    rfl

theorem ofNames_unknownFamily {s : String} (h : s ∉ Family.all.map Family.name) (kind : Option String) :
    ofNames (some s) kind = .error (.unknownFamily s) := by
  rcases ofNames_cases (some s) kind with ⟨f, hfamily, -, -⟩ | ⟨_, ⟨⟩, -, herror⟩ | ⟨_, -, -, hknown, -⟩
  · exact absurd (Family.mem_names s hfamily.symm) h
  · exact herror
  · exact absurd (hknown s rfl) h

theorem ofNames_unknownKind {family : Option String} {s : String}
    (hfamily : ∀ n ∈ family, n ∈ Family.all.map Family.name) (h : s ∉ Kind.all.map Kind.name) :
    ofNames family (some s) = .error (.unknownKind s) := by
  rcases ofNames_cases family (some s) with ⟨f, -, hkind, -⟩ | ⟨n, hn, hunknown, -⟩ | ⟨_, ⟨⟩, -, -, herror⟩
  · exact absurd (Kind.mem_names s hkind.symm) h
  · exact absurd (hfamily n hn) hunknown
  · exact herror

/-- which symbols a selection takes, by family and by signature -/
theorem accepts_iff (f : Selection) (s : Symbol) :
    f.accepts s = true ↔ (∀ n ∈ f.family.map Family.name, s.family.name = n) ∧
      ∀ n ∈ f.kind.map Kind.name, ∃ k ∈ s.signature.kinds, k.name = n := by
  rw [accepts, Bool.and_eq_true]
  apply and_congr
  · cases f.family with
    | none => simp
    | some g => simp [Family.name_injective.eq_iff]
  · cases f.kind with
    | none => simp
    | some l => simp [s.mentions_iff_mem_kinds, Kind.name_injective.eq_iff]

end Selection

/-! ## Commands -/

/-- the symbols that a listing is to show, in catalogue order: those of the family, and with the kind as the type of a
parameter or of the result -/
structure Listed (family kind : Option String) (symbols : List Symbol) : Prop where
  ordered : symbols.Sublist catalogue
  mem_iff : ∀ s, s ∈ symbols ↔ s ∈ catalogue ∧ (∀ n ∈ family, s.family.name = n) ∧
    ∀ n ∈ kind, ∃ k ∈ s.signature.kinds, k.name = n
  /-- no prototype is shown twice -/
  once : (symbols.map Symbol.prototype).Nodup
  /-- a prototype takes one line -/
  oneLine : ∀ s ∈ symbols, '\n' ∉ s.prototype.toList

/-- what a command leaves on standard output and in the working directory when it succeeds -/
inductive Command.Achieves : Command → String → List (String × String) → Prop
  | shown : Achieves (.header none) Header.text []
  | written {path name : String} (hname : OutputPath.Creates path name) :
      Achieves (.header (some path)) "" [(name, Header.text)]
  | listed {family kind : Option String} {symbols : List Symbol}
      (hfamily : ∀ n ∈ family, n ∈ Family.all.map Family.name) (hkind : ∀ n ∈ kind, n ∈ Kind.all.map Kind.name)
      (hsymbols : Listed family kind symbols) :
      Achieves (.symbols family kind) (String.join (symbols.map fun s => s.prototype ++ "\n")) []

theorem Selection.listed (f : Selection) :
    Listed (f.family.map Family.name) (f.kind.map Kind.name) (catalogue.filter f.accepts) := by
  refine ⟨List.filter_sublist, ?_, ?_, fun s _ => s.newline_notMem_prototype⟩
  · intro s
    rw [List.mem_filter, f.accepts_iff]
  · exact (catalogue_nodup.filter _).map Symbol.prototype_injective

namespace Command

/-- **One command**: it leaves what it is to leave, or nothing; it fails only where it must. -/
theorem run_cases (filter : LogFilter) (c : Command)
    (hpath : ∀ path, c = .header (some path) → OutputPath.staysInside path = true) :
    ((c.run filter).code = 0 ∧ c.Achieves (c.run filter).stdout (c.run filter).files) ∨
      ((c.run filter).code = 1 ∧ (c.run filter).stdout = "" ∧ (c.run filter).files = [] ∧
        ∀ stdout files, ¬ c.Achieves stdout files) := by
  cases c with
  | header output =>
    cases output with
    | none => exact Or.inl ⟨rfl, .shown⟩
    | some path =>
      have hinside := hpath path rfl
      cases hwrite : OutputPath.write path with
      | ok landing =>
        obtain ⟨name, hname, rfl⟩ := (OutputPath.write_eq_ok_iff hinside).1 hwrite
        left
        simp only [run, hwrite, headerWritten]
        exact ⟨trivial, .written hname⟩
      | error e =>
        right
        simp only [run, hwrite, failure]
        refine ⟨trivial, trivial, trivial, ?_⟩
        intro stdout files hachieves
        cases hachieves with
        | written hname =>
          have hok := (OutputPath.write_eq_ok_iff hinside).2 ⟨_, hname, rfl⟩
          rw [hwrite] at hok
          cases hok
  | symbols family kind =>
    rcases Selection.ofNames_cases family kind with
      ⟨f, hfamily, hkind, hok⟩ | ⟨s, rfl, hunknown, herror⟩ | ⟨s, rfl, hunknown, -, herror⟩
    · left
      simp only [run, hok, listing, Selection.prototypes, List.map_map]
      refine ⟨trivial, ?_⟩
      rw [hfamily, hkind]
      exact .listed Family.mem_names Kind.mem_names f.listed
    · right
      simp only [run, herror, failure]
      refine ⟨trivial, trivial, trivial, ?_⟩
      intro stdout files hachieves
      cases hachieves with
      | listed hfamily hkind hsymbols => exact hunknown (hfamily s rfl)
    · right
      simp only [run, herror, failure]
      refine ⟨trivial, trivial, trivial, ?_⟩
      intro stdout files hachieves
      cases hachieves with
      | listed hfamily hkind hsymbols => exact hunknown (hkind s rfl)

/-- the run of words that spell a command -/
theorem runWords_of_spelled (setting : Option String) {args : List String} {c : Command} (h : c.SpelledBy args) :
    runWords setting args =
      (c.run (LogFilter.ofSetting setting)).after (LogFilter.ofSetting setting).complaints := by
  simp only [runWords, parse_eq_ok_iff.2 h]

/-- the run of words that spell none and do not ask for help -/
theorem runWords_of_unspelled (setting : Option String) {args : List String} (hhelp : ¬ AsksForHelp args)
    (h : ∀ c : Command, ¬ c.SpelledBy args) :
    runWords setting args = { code := 2, stderr := (LogFilter.ofSetting setting).complaints } := by
  cases hparse : parse args with
  | ok c => exact absurd (parse_eq_ok_iff.1 hparse) (h c)
  | error e =>
    have hcode : e.exitCode = 2 := by
      cases e with
      | help => exact absurd (parse_eq_help_iff.1 hparse) hhelp
      | _ => rfl
    simp only [runWords, hparse, hcode]

/-- the three ways a run can end -/
theorem runWords_cases (setting : Option String) {args : List String} (hhelp : ¬ AsksForHelp args)
    (hpath : ∀ path, SpelledBy (.header (some path)) args → OutputPath.staysInside path = true) :
    let r := runWords setting args
    (r.code = 0 ∧ ∃ c : Command, c.SpelledBy args ∧ c.Achieves r.stdout r.files) ∨
      (r.code = 1 ∧ r.stdout = "" ∧ r.files = [] ∧
        ∃ c : Command, c.SpelledBy args ∧ ∀ stdout files, ¬ c.Achieves stdout files) ∨
      (r.code = 2 ∧ r.stdout = "" ∧ r.files = [] ∧ ∀ c : Command, ¬ c.SpelledBy args) := by
  intro r
  by_cases hspelled : ∃ c : Command, c.SpelledBy args
  · obtain ⟨c, hc⟩ := hspelled
    have hr : r = (c.run (LogFilter.ofSetting setting)).after (LogFilter.ofSetting setting).complaints :=
      runWords_of_spelled setting hc
    rw [hr]
    rcases c.run_cases (LogFilter.ofSetting setting) (fun path h => hpath path (h ▸ hc)) with
      ⟨hcode, hachieves⟩ | ⟨hcode, hstdout, hfiles, hnever⟩
    · exact Or.inl ⟨hcode, c, hc, hachieves⟩
    · exact Or.inr (Or.inl ⟨hcode, hstdout, hfiles, c, hc, hnever⟩)
  · have hnone : ∀ c : Command, ¬ c.SpelledBy args := fun c hc => hspelled ⟨c, hc⟩
    have hr : r = { code := 2, stderr := (LogFilter.ofSetting setting).complaints } :=
      runWords_of_unspelled setting hhelp hnone
    rw [hr]
    exact Or.inr (Or.inr ⟨rfl, rfl, rfl, hnone⟩)

/-- what a failed look-up reports, behind the complaints about the log setting -/
theorem stderr_of_lookupError (setting : Option String) {args : List String} {family kind : Option String}
    {e : LookupError} (h : SpelledBy (.symbols family kind) args) (he : Selection.ofNames family kind = .error e) :
    (runWords setting args).stderr =
      (LogFilter.ofSetting setting).complaints ++ Text.pieces '\n' ("error: " ++ e.message) := by
  rw [runWords_of_spelled setting h]
  simp only [run, he]
  rfl

end Command

/-- **The command line is all or nothing.** Take words that do not ask for help, and no path that leads out of the
working directory. The exit code is 0, and the words spell a command and everything it asks for is there; or it is 1, and
the words spell a command that cannot be carried out; or it is 2, and they spell none. Unless it is 0, nothing is on
standard output and no file exists. An unknown family is reported before an unknown kind. -/
theorem command_line_all_or_nothing (setting : Option String) (args : List String) (hhelp : ¬ AsksForHelp args)
    (hpath : ∀ path, Command.SpelledBy (.header (some path)) args → OutputPath.staysInside path = true) :
    let r := Command.runWords setting args
    let complaints := (LogFilter.ofSetting setting).complaints
    (r.code = 0 ∨ r.code = 1 ∨ r.code = 2) ∧
    (r.code ≠ 0 → r.stdout = "" ∧ r.files = []) ∧
    (r.code = 0 → ∃ c : Command, c.SpelledBy args ∧ c.Achieves r.stdout r.files) ∧
    (r.code = 1 → ∃ c : Command, c.SpelledBy args ∧ ∀ stdout files, ¬ c.Achieves stdout files) ∧
    (r.code = 2 → ∀ c : Command, ¬ c.SpelledBy args) ∧
    (∀ f kind, Command.SpelledBy (.symbols (some f) kind) args → f ∉ Family.all.map Family.name →
      r.stderr = complaints ++ Text.pieces '\n' ("error: " ++ (LookupError.unknownFamily f).message)) ∧
    ∀ family k, Command.SpelledBy (.symbols family (some k)) args → (∀ f ∈ family, f ∈ Family.all.map Family.name) →
      k ∉ Kind.all.map Kind.name →
      r.stderr = complaints ++ Text.pieces '\n' ("error: " ++ (LookupError.unknownKind k).message) := by
  intro r complaints
  have hfamily : ∀ f kind, Command.SpelledBy (.symbols (some f) kind) args → f ∉ Family.all.map Family.name →
      r.stderr = complaints ++ Text.pieces '\n' ("error: " ++ (LookupError.unknownFamily f).message) := by
    intro f kind hspelled hf
    exact Command.stderr_of_lookupError setting hspelled (Selection.ofNames_unknownFamily hf kind)
  have hkind : ∀ family k, Command.SpelledBy (.symbols family (some k)) args →
      (∀ f ∈ family, f ∈ Family.all.map Family.name) → k ∉ Kind.all.map Kind.name →
      r.stderr = complaints ++ Text.pieces '\n' ("error: " ++ (LookupError.unknownKind k).message) := by
    intro family k hspelled hknown hk
    exact Command.stderr_of_lookupError setting hspelled (Selection.ofNames_unknownKind hknown hk)
  rcases Command.runWords_cases setting hhelp hpath with
    ⟨hcode, hachieves⟩ | ⟨hcode, hstdout, hfiles, hnever⟩ | ⟨hcode, hstdout, hfiles, hnone⟩
  · exact ⟨Or.inl hcode, fun h => absurd hcode h, fun _ => hachieves, by simp [r, hcode], by simp [r, hcode],
      hfamily, hkind⟩
  · exact ⟨Or.inr (Or.inl hcode), fun _ => ⟨hstdout, hfiles⟩, by simp [r, hcode], fun _ => hnever, by simp [r, hcode],
      hfamily, hkind⟩
  · exact ⟨Or.inr (Or.inr hcode), fun _ => ⟨hstdout, hfiles⟩, by simp [r, hcode], by simp [r, hcode], fun _ => hnone,
      hfamily, hkind⟩

/-- the header goes to a path with a dot in front, the value joined to a short option -/
theorem command_line_all_or_nothing_dotted :
    let args := ["header", "-o=./out.h"]
    let r := Command.runWords none args
    (¬ AsksForHelp args ∧
      ∀ path, Command.SpelledBy (.header (some path)) args → OutputPath.staysInside path = true) ∧
    (r.code = 0 ∧ r.files = [("out.h", Header.text)]) ∧
    ∃ c : Command, c.SpelledBy args ∧ c.Achieves r.stdout r.files := by
  intro args r
  have hparse : Command.parse args = .ok (.header (some "./out.h")) := by rfl
  have hhelp : ¬ AsksForHelp args := by
    intro h
    rw [Command.parse_eq_help_iff.2 h] at hparse
    cases hparse
  have hpath : ∀ path, Command.SpelledBy (.header (some path)) args → OutputPath.staysInside path = true := by
    intro path h
    rw [Command.parse_eq_ok_iff.2 h] at hparse
    cases hparse
    decide +kernel
  have hcreates : OutputPath.Creates "./out.h" "out.h" :=
    ⟨⟨1, by decide⟩, by decide, by decide +kernel, by decide, by decide⟩
  have hwrite : OutputPath.write "./out.h" = .ok (.inside "out.h") :=
    (OutputPath.write_eq_ok_iff (by decide +kernel)).2 ⟨"out.h", hcreates, rfl⟩
  have hr : r.code = 0 ∧ r.files = [("out.h", Header.text)] := by
    simp only [r, Command.runWords, hparse, Command.run, hwrite, Command.headerWritten]
    exact ⟨rfl, rfl⟩
  obtain ⟨-, -, hzero, -⟩ := command_line_all_or_nothing none args hhelp hpath
  exact ⟨⟨hhelp, hpath⟩, hr, hzero hr.1⟩

end CallSurface
