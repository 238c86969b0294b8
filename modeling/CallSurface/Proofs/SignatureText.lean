/-
A prototype tells the signature and the name.

Texts are taken apart at characters that the parts around them do not have. The first opening bracket ends the name, and
each comma ends a parameter (`append_cons_inj_of_first`); the last blank of a declaration stands between type and name
(`declared_inj`), since types may have blanks and names have none. An empty list of parameters is written `void`, which has
no blank and so is no declaration. Types are told by their spellings (`CType.spelling_injective`).

Main result: `prototype_determines_signature`.
-/
import CallSurface.Proofs.Prototype

namespace CallSurface

/-! ## Taking texts apart -/

/-- a list can be taken apart at the first place of an element in one way only -/
theorem append_cons_inj_of_first {α : Type} {x : α} {a b c d : List α} (ha : x ∉ a) (hc : x ∉ c)
    (h : a ++ x :: b = c ++ x :: d) : a = c ∧ b = d := by
  have hreverse : b.reverse ++ x :: a.reverse = d.reverse ++ x :: c.reverse := by
    simpa using congrArg List.reverse h
  obtain ⟨hback, hfront⟩ := append_cons_inj_of_last (by simpa using ha) (by simpa using hc) hreverse
  exact ⟨List.reverse_inj.1 hfront, List.reverse_inj.1 hback⟩

/-- texts without a comma, joined by commas, are told apart -/
theorem intercalate_comma_inj {l l' : List String} (hl : ∀ t ∈ l, ',' ∉ t.toList) (hl' : ∀ t ∈ l', ',' ∉ t.toList)
    (hne : l ≠ []) (hne' : l' ≠ []) (h : ", ".intercalate l = ", ".intercalate l') : l = l' := by
  induction l generalizing l' with
  | nil => exact absurd rfl hne
  | cons t l ih =>
    cases l' with
    | nil => exact absurd rfl hne'
    | cons t' l' =>
      have ht := hl t List.mem_cons_self
      have ht' := hl' t' List.mem_cons_self
      cases l with
      | nil =>
        cases l' with
        | nil => simpa using h
        | cons u' l' =>
          rw [String.intercalate_singleton, String.intercalate_cons_cons] at h
          exact absurd (by rw [h]; simp) ht
      | cons u l =>
        cases l' with
        | nil =>
          rw [String.intercalate_singleton, String.intercalate_cons_cons] at h
          exact absurd (by rw [← h]; simp) ht'
        | cons u' l' =>
          have hchars : t.toList ++ ',' :: ' ' :: (", ".intercalate (u :: l)).toList =
              t'.toList ++ ',' :: ' ' :: (", ".intercalate (u' :: l')).toList := by
            rw [String.intercalate_cons_cons, String.intercalate_cons_cons] at h
            simpa using congrArg String.toList h
          obtain ⟨hfirst, hrest⟩ := append_cons_inj_of_first ht ht' hchars
          have htail : u :: l = u' :: l' :=
            ih (fun s hs => hl s (List.mem_cons_of_mem t hs)) (fun s hs => hl' s (List.mem_cons_of_mem t' hs))
              (List.cons_ne_nil u l) (List.cons_ne_nil u' l') (String.toList_inj.1 (List.cons.inj hrest).2)
          rw [String.toList_inj.1 hfirst, htail]

/-! ## Types and names -/

namespace CType

/-- every type that crosses the call boundary -/
def all : List CType :=
  [.void, .charArray, .address] ++ Kind.all.map .scalar

theorem mem_all (t : CType) : t ∈ all := by
  cases t with
  | scalar k => exact List.mem_append_right _ (List.mem_map_of_mem k.mem_all)
  | _ => simp [all]

/-- **A type is told by its spelling.** -/
theorem spelling_injective : Function.Injective spelling := by
  have htable : ∀ t ∈ all, ∀ u ∈ all, t.spelling = u.spelling → t = u := by decide
  intro t u h
  exact htable t t.mem_all u u.mem_all h

/-- a character of a declaration: of a name, or one that types have besides -/
def isDeclarationChar (c : Char) : Bool :=
  isNameChar c || c == ' ' || c == '*'

theorem all_isDeclarationChar_spelling (t : CType) : t.spelling.toList.all isDeclarationChar = true := by
  have htable : ∀ t ∈ all, t.spelling.toList.all isDeclarationChar = true := by decide
  exact htable t t.mem_all

end CType

/-- a text of letters, digits and underscores -/
def isWord (s : String) : Bool :=
  s.toList.all isNameChar

/-- the last blank stands between type and name -/
theorem declared_inj {t u : CType} {f g : String} (hf : isWord f = true) (hg : isWord g = true)
    (h : t.spelling ++ " " ++ f = u.spelling ++ " " ++ g) : t = u ∧ f = g := by
  have hchars : t.spelling.toList ++ ' ' :: f.toList = u.spelling.toList ++ ' ' :: g.toList := by
    simpa using congrArg String.toList h
  obtain ⟨htype, hname⟩ := append_cons_inj_of_last (notMem_of_all hf (by decide)) (notMem_of_all hg (by decide)) hchars
  exact ⟨CType.spelling_injective (String.toList_inj.1 htype), String.toList_inj.1 hname⟩

theorem all_isDeclarationChar_declared (t : CType) {f : String} (hf : isWord f = true) :
    (t.spelling ++ " " ++ f).toList.all CType.isDeclarationChar = true := by
  have hname : f.toList.all CType.isDeclarationChar = true := by
    rw [List.all_eq_true]
    intro c hc
    rw [CType.isDeclarationChar, List.all_eq_true.1 hf c hc]
    rfl
  rw [String.toList_append, String.toList_append, List.all_append, List.all_append,
    t.all_isDeclarationChar_spelling, hname]
  decide

/-! ## Parameters -/

theorem params_eq_of_declarations {ps qs : List Param} (hps : ∀ p ∈ ps, isWord p.name = true)
    (hqs : ∀ q ∈ qs, isWord q.name = true) (h : ps.map Param.declaration = qs.map Param.declaration) : ps = qs := by
  induction ps generalizing qs with
  | nil => exact (List.map_eq_nil_iff.1 h.symm).symm
  | cons p ps ih =>
    cases qs with
    | nil => simp at h
    | cons q qs =>
      obtain ⟨hfirst, hrest⟩ := List.cons.inj h
      obtain ⟨htype, hname⟩ := declared_inj (hps p List.mem_cons_self) (hqs q List.mem_cons_self) hfirst
      have htail : ps = qs :=
        ih (fun r hr => hps r (List.mem_cons_of_mem p hr)) (fun r hr => hqs r (List.mem_cons_of_mem q hr)) hrest
      have hparam : p = q := by
        cases p
        cases q
        exact congr (congrArg Param.mk hname) htype
      rw [hparam, htail]

namespace Signature

/-- a declaration has a blank, and `void` has none -/
theorem parameterText_ne_void {s : Signature} (hs : s.params ≠ []) : s.parameterText ≠ "void" := by
  intro h
  have hblank : ' ' ∈ s.parameterText.toList := by
    cases hparams : s.params with
    | nil => exact absurd hparams hs
    | cons p ps =>
      cases ps with
      | nil => simp [parameterText, hparams, Param.declaration]
      | cons q qs => simp [parameterText, hparams]
  rw [h] at hblank
  exact absurd hblank (by decide)

/-- **The text between the brackets tells the parameters.** -/
theorem params_eq_of_parameterText {s t : Signature} (hs : ∀ p ∈ s.params, isWord p.name = true)
    (ht : ∀ p ∈ t.params, isWord p.name = true) (h : s.parameterText = t.parameterText) : s.params = t.params := by
  have hvoid : ∀ u : Signature, u.params = [] → u.parameterText = "void" := by
    intro u hu
    simp [parameterText, hu]
  have hlist : ∀ u : Signature, u.params ≠ [] → u.parameterText = ", ".intercalate (u.params.map Param.declaration) := by
    intro u hu
    simp [parameterText, hu]
  have hcomma : ∀ ps : List Param, (∀ p ∈ ps, isWord p.name = true) →
      ∀ d ∈ ps.map Param.declaration, ',' ∉ d.toList := by
    intro ps hps d hd
    obtain ⟨p, hp, rfl⟩ := List.mem_map.1 hd
    exact notMem_of_all (all_isDeclarationChar_declared p.type (hps p hp)) (by decide)
  by_cases hnone : s.params = []
  · by_cases hnone' : t.params = []
    · rw [hnone, hnone']
    · exact absurd (h.symm.trans (hvoid s hnone)) (parameterText_ne_void hnone')
  · by_cases hnone' : t.params = []
    · exact absurd (h.trans (hvoid t hnone')) (parameterText_ne_void hnone)
    · rw [hlist s hnone, hlist t hnone'] at h
      apply params_eq_of_declarations hs ht
      exact intercalate_comma_inj (hcomma _ hs) (hcomma _ ht) (by simpa using hnone) (by simpa using hnone') h

end Signature

/-- **C prototypes are unambiguous.** Take two signatures, with any number of parameters of any types, and two names of
functions, where all names are made of letters, digits and underscores. They have the same prototype exactly if their
parameters are the same, by names, types and order, and their return types and the names of the functions. -/
theorem prototype_determines_signature {s t : Signature} {f g : String} (hs : ∀ p ∈ s.params, isWord p.name = true)
    (ht : ∀ p ∈ t.params, isWord p.name = true) (hf : isWord f = true) (hg : isWord g = true) :
    s.prototype f = t.prototype g ↔ s.params = t.params ∧ s.ret = t.ret ∧ f = g := by
  constructor
  · intro h
    have hchars : (s.ret.spelling ++ " " ++ f).toList ++ '(' :: (s.parameterText ++ ")").toList =
        (t.ret.spelling ++ " " ++ g).toList ++ '(' :: (t.parameterText ++ ")").toList := by
      simpa [Signature.prototype] using congrArg String.toList h
    obtain ⟨hfront, hback⟩ := append_cons_inj_of_first
      (notMem_of_all (all_isDeclarationChar_declared s.ret hf) (by decide))
      (notMem_of_all (all_isDeclarationChar_declared t.ret hg) (by decide)) hchars
    obtain ⟨hret, hname⟩ := declared_inj hf hg (String.toList_inj.1 hfront)
    have hparams : s.parameterText = t.parameterText := (String.append_left_inj ")").1 (String.toList_inj.1 hback)
    exact ⟨Signature.params_eq_of_parameterText hs ht hparams, hret, hname⟩
  · rintro ⟨hparams, hret, rfl⟩
    cases s
    cases t
    cases hparams
    cases hret
    rfl

/-- no parameters, and one parameter of the type that stands for none -/
theorem prototype_determines_signature_void :
    let empty : Signature := ⟨[], .charArray⟩
    let single : Signature := ⟨[⟨"void", .void⟩], .charArray⟩
    ((∀ p ∈ empty.params, isWord p.name = true) ∧ (∀ p ∈ single.params, isWord p.name = true) ∧
      isWord "struct" = true) ∧
    (empty.prototype "struct" = single.prototype "struct" ↔
      empty.params = single.params ∧ empty.ret = single.ret ∧ "struct" = "struct") := by
  intro empty single
  have hempty : ∀ p ∈ empty.params, isWord p.name = true := by decide
  have hsingle : ∀ p ∈ single.params, isWord p.name = true := by decide
  have hname : isWord "struct" = true := by decide
  exact ⟨⟨hempty, hsingle, hname⟩, prototype_determines_signature hempty hsingle hname hname⟩

end CallSurface
