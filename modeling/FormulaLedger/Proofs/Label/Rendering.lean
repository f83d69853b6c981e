import FormulaLedger.Label
import FormulaLedger.Proofs.Text.Trim
import Mathlib.Data.Char
import Mathlib.Data.List.Basic

set_option autoImplicit false

namespace FormulaLedger

theorem TextTable.lookup?_eq_some_iff {t : TextTable} {key value : String} :
    t.lookup? key = some value ↔ (key, value) ∈ t.entries := by
  obtain ⟨entries, hsorted⟩ := t
  rw [lookup?, List.lookup_eq_some_iff]
  constructor
  · rintro ⟨before, after, rfl, -⟩
    simp
  · intro hmem
    obtain ⟨before, after, rfl⟩ := List.append_of_mem hmem
    refine ⟨before, after, rfl, fun entry hentry => ?_⟩
    have hlt : entry.1 < key :=
      (List.pairwise_append.1 hsorted).2.2 entry hentry _ List.mem_cons_self
    simpa using (String.ne_of_lt hlt).symm

namespace Label

/-- What a text falls into: characters that stand for themselves, and placeholders. -/
inductive Piece
  | character (c : Char)
  | placeholder (before key after : List Char)

namespace Piece

def written : Piece → List Char
  | .character c => [c]
  | .placeholder before key after => '{' :: '{' :: (before ++ (key ++ (after ++ ['}', '}'])))

/-- What is put in the place of the piece. A value goes in as it is. -/
def shown (payload : TextTable) : Piece → List Char
  | .character c => [c]
  | .placeholder before key after =>
    match payload.lookup? (String.ofList key) with
    | some value => value.toList
    | none => written (.placeholder before key after)

end Piece

def keyRanges : List (Char × Char) :=
  [('A', 'Z'), ('a', 'z'), ('0', '9'), ('_', '_'), ('.', '.'), ('-', '-')]

/-- A placeholder has a key that is not empty, with nothing but blanks between it and the braces. -/
inductive IsPlaceholder : Piece → Prop
  | intro {before key after : List Char} : (∀ c ∈ before, Text.isBlank c = true) → key ≠ [] →
      (∀ c ∈ key, ∃ range ∈ keyRanges, range.1 ≤ c ∧ c ≤ range.2) →
      (∀ c ∈ after, Text.isBlank c = true) → IsPlaceholder (.placeholder before key after)

def StartsPlaceholder (cs : List Char) : Prop :=
  ∃ p rest, IsPlaceholder p ∧ cs = p.written ++ rest

/-- The pieces of a text from left to right. A placeholder is taken wherever one starts, and the
search goes on behind it; any other character is a piece of its own. -/
inductive Pieces : List Char → List Piece → Prop
  | nil : Pieces [] []
  | placeholder {p : Piece} {rest : List Char} {ps : List Piece} : IsPlaceholder p →
      Pieces rest ps → Pieces (p.written ++ rest) (p :: ps)
  | character {c : Char} {cs : List Char} {ps : List Piece} : ¬ StartsPlaceholder (c :: cs) →
      Pieces cs ps → Pieces (c :: cs) (.character c :: ps)

section keys

variable {c : Char}

theorem between_self_iff {d : Char} : d ≤ c ∧ c ≤ d ↔ c = d := by
  simp only [Char.le_def, UInt32.le_iff_toNat_le, Char.ext_iff, ← UInt32.toNat_inj]
  omega

theorem isKeyChar_iff :
    isKeyChar c = true ↔ ∃ range ∈ keyRanges, range.1 ≤ c ∧ c ≤ range.2 := by
  have hupper : c.isUpper = true ↔ 'A' ≤ c ∧ c ≤ 'Z' := decide_eq_true_iff
  have hlower : c.isLower = true ↔ 'a' ≤ c ∧ c ≤ 'z' :=
    Bool.and_eq_true_iff.trans (and_congr decide_eq_true_iff decide_eq_true_iff)
  have hdigit : c.isDigit = true ↔ '0' ≤ c ∧ c ≤ '9' :=
    Bool.and_eq_true_iff.trans (and_congr decide_eq_true_iff decide_eq_true_iff)
  have hletter : c.isAlpha = true ↔ c.isUpper = true ∨ c.isLower = true := Bool.or_eq_true_iff
  have hplain : c.isAlphanum = true ↔ c.isAlpha = true ∨ c.isDigit = true := Bool.or_eq_true_iff
  simp only [keyRanges, List.exists_mem_cons_iff, List.not_mem_nil, false_and, exists_false,
    or_false, between_self_iff]
  simp only [isKeyChar, Bool.or_eq_true, beq_iff_eq, hplain, hletter, hupper, hlower, hdigit,
    or_assoc]

theorem toNat_of_isKeyChar (h : isKeyChar c = true) : 45 ≤ c.toNat ∧ c.toNat ≤ 122 := by
  obtain ⟨range, hrange, hlow, hhigh⟩ := isKeyChar_iff.1 h
  have hbounds : ∀ range ∈ keyRanges, 45 ≤ range.1.toNat ∧ range.2.toNat ≤ 122 := by decide
  obtain ⟨hfirst, hlast⟩ := hbounds range hrange
  simp only [Char.le_def, UInt32.le_iff_toNat_le] at hlow hhigh
  exact ⟨Nat.le_trans hfirst hlow, Nat.le_trans hhigh hlast⟩

theorem not_isBlank_of_isKeyChar (h : isKeyChar c = true) : Text.isBlank c = false := by
  have hbounds := toNat_of_isKeyChar h
  grind [Text.isBlank]

theorem not_isKeyChar_of_isBlank (h : Text.isBlank c = true) : isKeyChar c = false := by
  by_contra hkey
  rw [not_isBlank_of_isKeyChar (Bool.not_eq_false _ |>.mp hkey)] at h
  contradiction

end keys

section placeholders

variable {before key after rest cs : List Char} {width : Nat}

/-- The three runs of a placeholder end where the next one starts, so nothing can be read in two
ways. -/
theorem IsPlaceholder.heads (h : IsPlaceholder (.placeholder before key after))
    (rest : List Char) :
    (∀ c ∈ (key ++ (after ++ '}' :: '}' :: rest)).head?, Text.isBlank c = false) ∧
      (∀ c ∈ (after ++ '}' :: '}' :: rest).head?, isKeyChar c = false) ∧
      ∀ c ∈ ('}' :: '}' :: rest).head?, Text.isBlank c = false := by
  obtain ⟨_, hne, hkey, hafter⟩ := h
  refine ⟨fun c hc => ?_, fun c hc => ?_, fun c hc => ?_⟩
  · rw [List.head?_append_of_ne_nil _ hne] at hc
    exact not_isBlank_of_isKeyChar (isKeyChar_iff.2 (hkey c (List.mem_of_head? hc)))
  · cases after with
    | nil =>
      obtain rfl : '}' = c := Option.some.inj hc
      decide
    | cons a after =>
      obtain rfl : a = c := Option.some.inj hc
      exact not_isKeyChar_of_isBlank (hafter _ List.mem_cons_self)
  · obtain rfl : '}' = c := Option.some.inj hc
    decide

theorem written_append (before key after rest : List Char) :
    (Piece.placeholder before key after).written ++ rest =
      '{' :: '{' :: (before ++ (key ++ (after ++ '}' :: '}' :: rest))) := by
  simp [Piece.written]

theorem placeholder?_written (h : IsPlaceholder (.placeholder before key after))
    (rest : List Char) : placeholder? ((Piece.placeholder before key after).written ++ rest) =
      some (key, (Piece.placeholder before key after).written.length) := by
  obtain ⟨hinner, htail, hend⟩ := h.heads rest
  obtain ⟨hbefore, hne, hkey, hafter⟩ := h
  have hkey : ∀ c ∈ key, isKeyChar c = true := fun c hc => isKeyChar_iff.2 (hkey c hc)
  rw [written_append]
  simp only [placeholder?, Text.takeWhile_run hbefore hinner, Text.dropWhile_run hbefore hinner,
    Text.takeWhile_run hkey htail, Text.dropWhile_run hkey htail, Text.takeWhile_run hafter hend,
    Text.dropWhile_run hafter hend]
  cases key with
  | nil => exact absurd rfl hne
  | cons k key =>
    simp [Piece.written]
    omega

theorem exists_of_placeholder? (h : placeholder? cs = some (key, width)) :
    ∃ before after rest, IsPlaceholder (.placeholder before key after) ∧
      cs = (Piece.placeholder before key after).written ++ rest := by
  unfold placeholder? at h
  split at h
  · next cs =>
    dsimp only at h
    split at h
    · next k ks rest hkey hrest =>
      cases h
      refine ⟨cs.takeWhile Text.isBlank,
        ((cs.dropWhile Text.isBlank).dropWhile isKeyChar).takeWhile Text.isBlank, rest, ?_, ?_⟩
      · exact ⟨fun c hc => List.mem_takeWhile_imp hc, by simp [hkey],
          fun c hc => isKeyChar_iff.1 (List.mem_takeWhile_imp hc),
          fun c hc => List.mem_takeWhile_imp hc⟩
      · rw [written_append, ← hrest, List.takeWhile_append_dropWhile,
          List.takeWhile_append_dropWhile, List.takeWhile_append_dropWhile]
    · contradiction
  · contradiction

theorem placeholder?_eq_none_iff : placeholder? cs = none ↔ ¬ StartsPlaceholder cs := by
  constructor
  · rintro h ⟨p, rest, hp, rfl⟩
    cases hp with
    | intro hbefore hne hkey hafter =>
      rw [placeholder?_written ⟨hbefore, hne, hkey, hafter⟩] at h
      contradiction
  · intro h
    cases hfound : placeholder? cs with
    | none => rfl
    | some found =>
      obtain ⟨before, after, rest, hp, hcs⟩ := exists_of_placeholder? hfound
      exact absurd ⟨_, rest, hp, hcs⟩ h

end placeholders

theorem Pieces.written_eq {cs : List Char} {ps : List Piece} (h : Pieces cs ps) :
    ps.flatMap Piece.written = cs := by
  induction h with
  | nil => rfl
  | placeholder _ _ ih => rw [List.flatMap_cons, ih]
  | character _ _ ih => rw [List.flatMap_cons, ih, Piece.written, List.singleton_append]

section determined

variable {p q : Piece} {rest rest' cs : List Char} {ps qs : List Piece}

theorem IsPlaceholder.determined (hp : IsPlaceholder p) (hq : IsPlaceholder q)
    (heq : p.written ++ rest = q.written ++ rest') : p = q ∧ rest = rest' := by
  cases hp with
  | @intro before key after hbefore hne hkey hafter =>
    cases hq with
    | @intro before' key' after' hbefore' hne' hkey' hafter' =>
      obtain ⟨hinner, htail, hend⟩ := IsPlaceholder.heads ⟨hbefore, hne, hkey, hafter⟩ rest
      obtain ⟨hinner', htail', hend'⟩ :=
        IsPlaceholder.heads ⟨hbefore', hne', hkey', hafter'⟩ rest'
      rw [written_append, written_append] at heq
      obtain ⟨rfl, hkeys⟩ := Text.run_inj (List.cons.inj (List.cons.inj heq).2).2
        hbefore hinner hbefore' hinner'
      obtain ⟨rfl, hafters⟩ := Text.run_inj hkeys (fun c hc => isKeyChar_iff.2 (hkey c hc)) htail
        (fun c hc => isKeyChar_iff.2 (hkey' c hc)) htail'
      obtain ⟨rfl, hrests⟩ := Text.run_inj hafters hafter hend hafter' hend'
      exact ⟨rfl, (List.cons.inj (List.cons.inj hrests).2).2⟩

theorem Pieces.determined (hp : Pieces cs ps) (hq : Pieces cs qs) : ps = qs := by
  induction hp generalizing qs with
  | nil =>
    generalize hcs : ([] : List Char) = cs at hq
    cases hq with
    | nil => rfl
    | @placeholder q _ _ hq _ => cases hq with | intro => simp [Piece.written] at hcs
    | character _ _ => contradiction
  | @placeholder p rest ps hp hps ih =>
    generalize hcs : p.written ++ rest = cs at hq
    cases hq with
    | nil => cases hp with | intro => simp [Piece.written] at hcs
    | @placeholder q rest' _ hq hqs =>
      obtain ⟨rfl, rfl⟩ := hp.determined hq hcs
      rw [ih hqs]
    | character hnone _ => exact absurd ⟨p, rest, hp, hcs.symm⟩ hnone
  | @character c cs ps hnone hps ih =>
    generalize hcs : c :: cs = cs' at hq
    cases hq with
    | nil => contradiction
    | @placeholder q rest' _ hq _ => exact absurd ⟨q, rest', hq, hcs⟩ hnone
    | character _ hqs =>
      cases hcs
      rw [ih hqs]

theorem exists_pieces (cs : List Char) : ∃ ps, Pieces cs ps := by
  -- the induction is on the length, since a placeholder takes more than one character
  induction hn : cs.length using Nat.strongRecOn generalizing cs with
  | ind n ih =>
    cases cs with
    | nil => exact ⟨[], .nil⟩
    | cons c cs =>
      by_cases hstarts : StartsPlaceholder (c :: cs)
      · obtain ⟨p, rest, hp, heq⟩ := hstarts
        have hlength : rest.length < n := by
          rw [← hn, heq, List.length_append]
          cases hp with
          | intro => simp [Piece.written]
        obtain ⟨ps, hps⟩ := ih _ hlength rest rfl
        exact ⟨p :: ps, heq ▸ .placeholder hp hps⟩
      · obtain ⟨ps, hps⟩ := ih cs.length (by rw [← hn]; exact Nat.lt_succ_self _) cs rfl
        exact ⟨.character c :: ps, .character hstarts hps⟩

end determined

section rendering

variable {payload : TextTable} {cs : List Char} {ps : List Piece}

theorem substitute_skip (skip : Nat) (cs : List Char) :
    substitute payload skip cs = substitute payload 0 (cs.drop skip) := by
  induction cs generalizing skip with
  | nil => cases skip <;> rfl
  | cons c cs ih =>
    cases skip with
    | zero => rfl
    | succ skip => exact ih skip

theorem substitute_placeholder {p : Piece} (hp : IsPlaceholder p) (rest : List Char) :
    substitute payload 0 (p.written ++ rest) = p.shown payload ++ substitute payload 0 rest := by
  cases hp with
  | @intro before key after hbefore hne hkey hafter =>
    have hfound := placeholder?_written ⟨hbefore, hne, hkey, hafter⟩ rest
    generalize hw : (Piece.placeholder before key after).written = w at hfound ⊢
    cases w with
    | nil => simp [Piece.written] at hw
    | cons c w =>
      rw [List.cons_append] at hfound ⊢
      rw [substitute, hfound]
      simp only [List.length_cons, Nat.add_sub_cancel]
      rw [substitute_skip, List.drop_left, Piece.shown, hw]
      have hkept : (c :: (w ++ rest)).take (w.length + 1) = c :: w := by
        rw [← List.cons_append, ← List.length_cons, List.take_left]
      cases payload.lookup? (String.ofList key) with
      | some value => rfl
      | none => exact congrArg (· ++ substitute payload 0 rest) hkept

theorem substitute_character {c : Char} (hnone : ¬ StartsPlaceholder (c :: cs)) :
    substitute payload 0 (c :: cs) = c :: substitute payload 0 cs := by
  rw [substitute, placeholder?_eq_none_iff.2 hnone]

theorem Pieces.substitute_eq (h : Pieces cs ps) :
    substitute payload 0 cs = ps.flatMap (Piece.shown payload) := by
  induction h with
  | nil => rfl
  | placeholder hp _ ih => rw [substitute_placeholder hp, ih, List.flatMap_cons]
  | character hnone _ ih => rw [substitute_character hnone, ih]; rfl

theorem Piece.shown_of_isEmpty (h : payload.isEmpty = true) (p : Piece) :
    p.shown payload = p.written := by
  cases p with
  | character c => rfl
  | placeholder before key after =>
    have hnone : payload.lookup? (String.ofList key) = none := by
      rw [TextTable.lookup?, List.isEmpty_iff.1 h, List.lookup_nil]
    rw [shown, hnone]

theorem render_eq_substitute (l : Label) :
    l.render = String.ofList (substitute l.payload 0 l.text.toList) := by
  rw [render]
  split
  · next hempty =>
    obtain ⟨ps, hps⟩ := exists_pieces l.text.toList
    have hshown : Piece.shown l.payload = Piece.written :=
      funext (Piece.shown_of_isEmpty hempty)
    rw [hps.substitute_eq, hshown, hps.written_eq, String.ofList_toList]
  · rfl

end rendering

/-- A text falls into pieces in one way, and what it is rendered to is what its pieces are shown as,
one after the other, whatever the payload; the value of a key is the one that the payload has it
with. Going through the text gives the same for an empty payload too, for which the text is left as
it is. -/
theorem render_in_one_pass (text : String) : ∃ pieces,
    (∀ others, Pieces text.toList others ↔ others = pieces) ∧
      pieces.flatMap Piece.written = text.toList ∧
      ∀ payload, (Label.mk text payload).render =
          String.ofList (pieces.flatMap (Piece.shown payload)) ∧
        (∀ key value, payload.lookup? key = some value ↔ (key, value) ∈ payload.entries) ∧
        (Label.mk text payload).render = String.ofList (substitute payload 0 text.toList) ∧
        (payload.isEmpty = true → (Label.mk text payload).render = text) := by
  obtain ⟨pieces, hpieces⟩ := exists_pieces text.toList
  refine ⟨pieces, fun others => ⟨fun h => h.determined hpieces, fun h => h ▸ hpieces⟩,
    hpieces.written_eq, fun payload => ⟨?_, fun _ _ => TextTable.lookup?_eq_some_iff,
      render_eq_substitute _, fun h => if_pos h⟩⟩
  rw [render_eq_substitute, hpieces.substitute_eq]

/-- A placeholder in a value is not filled in, though its key has a value, and one whose key has
none stays. -/
theorem render_in_one_pass_nested :
    let pieces : List Piece := [.placeholder [] ['a'] [' '], .character '-', .placeholder [] ['c'] []]
    Pieces "\x7b\x7ba \x7d\x7d-\x7b\x7bc\x7d\x7d".toList pieces ∧
      (Label.mk "\x7b\x7ba \x7d\x7d-\x7b\x7bc\x7d\x7d"
        ⟨[("a", "\x7b\x7bb\x7d\x7d"), ("b", "x")], by decide⟩).render =
          "\x7b\x7bb\x7d\x7d-\x7b\x7bc\x7d\x7d" := by
  intro pieces
  have hpieces : Pieces "\x7b\x7ba \x7d\x7d-\x7b\x7bc\x7d\x7d".toList pieces := by
    have hfirst : IsPlaceholder (.placeholder [] ['a'] [' ']) :=
      ⟨by simp, by simp, List.forall_mem_singleton.2 (isKeyChar_iff.1 (by decide)),
        List.forall_mem_singleton.2 (by decide)⟩
    have hsecond : IsPlaceholder (.placeholder [] ['c'] []) :=
      ⟨by simp, by simp, List.forall_mem_singleton.2 (isKeyChar_iff.1 (by decide)), by simp⟩
    have hdash : ¬ StartsPlaceholder "-\x7b\x7bc\x7d\x7d".toList :=
      placeholder?_eq_none_iff.1 (by decide)
    exact .placeholder hfirst (.character hdash (.placeholder hsecond .nil))
  obtain ⟨others, hothers, _, hrender⟩ :=
    render_in_one_pass "\x7b\x7ba \x7d\x7d-\x7b\x7bc\x7d\x7d"
  obtain rfl : pieces = others := (hothers pieces).1 hpieces
  refine ⟨hpieces, (hrender _).1.trans ?_⟩
  decide +kernel

end Label

end FormulaLedger
