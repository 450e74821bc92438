import Mathlib.Data.List.Forall2
import Mathlib.Data.Nat.Digits.Lemmas
import TypeAssay.Proofs.Cuts

/-!
# Escapes in strings

What stands between the quotes of a string (`IsStringBody`) is cut into pieces, from the left to the
right: a character that stands for itself, a backslash with one character, or a Unicode escape,
which takes all the digits that it can, four at most without braces. Each piece has a meaning of its
own (`StringPiece.Decodes`), whatever stands around it.

* `stringBody_eq_iff` : the bodies are what is read up to the closing quote.
* `CutInto.unique`, `exists_cutInto` : a body is cut into pieces in one way.
* `unescape_exact` : the text means what its pieces mean, one after the other, but for one kind of
  piece. A Unicode escape that names no character is kept as it is written without its braces.
-/

namespace TypeAssay

/-! ## Characters by their digits -/

/-- The hexadecimal digits spell the code point of the character. -/
def Names (hex : List Char) (c : Char) : Prop :=
  hex ≠ [] ∧ Nat.ofDigits 16 (hex.map hexDigitValue).reverse = c.toNat

instance (hex : List Char) (c : Char) : Decidable (Names hex c) :=
  inferInstanceAs (Decidable (_ ∧ _))

/-- Digits name one character at most. -/
theorem Names.unique {hex : List Char} {c d : Char} (hc : Names hex c) (hd : Names hex d) :
    c = d :=
  Char.toNat_inj.mp (hc.2.symm.trans hd.2)

/-- The value of digits, most significant first. -/
theorem natOfBaseDigits_eq_ofDigits (base : Nat) (ds : List Char) :
    natOfBaseDigits base ds = Nat.ofDigits base (ds.map hexDigitValue).reverse := by
  rw [Nat.ofDigits_eq_foldr, List.foldr_reverse, List.foldl_map, natOfBaseDigits]
  simp only [Nat.cast_id, Nat.add_comm]

/-- A code is that of a character exactly if the character has this code. -/
theorem charOfCode?_eq_some_iff {n : Nat} {c : Char} : charOfCode? n = some c ↔ n = c.toNat := by
  rw [charOfCode?]
  constructor
  · intro h
    split at h
    · rename_i hn
      rw [← Option.some.inj h, Char.ofNat, dif_pos hn]
      rfl
    · exact absurd h (by simp)
  · rintro rfl
    have hvalid : c.toNat.isValidChar := c.valid
    rw [if_pos hvalid, Char.ofNat_toNat]

/-- An escape has the meaning `c` if its digits name `c`. -/
theorem unicodeMeaning_of_names {hex : List Char} {c : Char} (h : Names hex c) :
    unicodeMeaning hex = [c] := by
  obtain ⟨hne, hcode⟩ := h
  obtain ⟨d, ds, rfl⟩ := List.exists_cons_of_ne_nil hne
  have hc : charOfCode? (natOfHexDigits (d :: ds)) = some c := by
    rw [charOfCode?_eq_some_iff, natOfHexDigits, natOfBaseDigits_eq_ofDigits, hcode]
  simp [unicodeMeaning, hc]

/-- An escape whose digits name no character is kept, without its braces. -/
theorem unicodeMeaning_of_nameless {hex : List Char} (h : ∀ c, ¬ Names hex c) :
    unicodeMeaning hex = '\\' :: 'u' :: hex := by
  rw [unicodeMeaning.eq_def]
  split
  · rename_i d ds c hc
    rw [charOfCode?_eq_some_iff, natOfHexDigits, natOfBaseDigits_eq_ofDigits] at hc
    exact absurd ⟨List.cons_ne_nil d ds, hc⟩ (h c)
  · rfl

/-! ## Bodies -/

section

variable {quote : Char} {body cs rest : List Char}

/-- A body is read up to the quote behind it. -/
theorem IsStringBody.stringBody_eq (h : IsStringBody quote body) (hquote : '\\' ≠ quote)
    (rest : List Char) : stringBody quote (body ++ quote :: rest) = (body, true) := by
  induction h with
  | nil => exact stringBody_quote quote rest
  | char hc hslash hline _ ih => rw [List.cons_append, stringBody_cons hc hline hslash, ih]
  | pair hline _ ih =>
    rw [List.cons_append, List.cons_append, stringBody_pair hquote hline, ih]

/-- What is read up to a closing quote is a body. -/
theorem stringBody_eq_iff (hquote : '\\' ≠ quote) :
    stringBody quote cs = (body, true) ↔
      IsStringBody quote body ∧ ∃ rest, cs = body ++ quote :: rest := by
  constructor
  · intro h
    have hbody := isStringBody_of_stringBody (congrArg Prod.snd h)
    rwa [h] at hbody
  · rintro ⟨hbody, rest, rfl⟩
    exact hbody.stringBody_eq hquote rest

/-- A body without its beginning is one, unless a backslash is cut off. -/
theorem IsStringBody.of_append {taken : List Char} (h : IsStringBody quote (taken ++ rest))
    (htaken : '\\' ∉ taken) : IsStringBody quote rest := by
  induction taken with
  | nil => exact h
  | cons c taken ih =>
    rw [List.mem_cons, not_or] at htaken
    refine ih ?_ htaken.2
    generalize htext : c :: taken ++ rest = text at h
    cases h with
    | nil => exact absurd htext (by simp)
    | char _ _ _ h =>
      obtain ⟨-, rfl⟩ := List.cons.inj htext
      exact h
    | pair => exact absurd (List.cons.inj htext).1.symm htaken.1

end

/-! ## Pieces -/

/-- The braces around the digits of a Unicode escape: none, an opening one only, or both. -/
inductive Braces where
  | none
  | opened
  | closed
deriving DecidableEq

/-- A piece of a body. -/
inductive StringPiece where
  | plain (c : Char)
  | escaped (c : Char)
  | unicode (braces : Braces) (hex : List Char)

/-- The digits with their braces. -/
def Braces.around (hex : List Char) : Braces → List Char
  | none => hex
  | opened => '{' :: hex
  | closed => '{' :: (hex ++ ['}'])

/-- How many digits an escape takes: all that follow in front of `rest`, but only four without
braces; and which braces it takes. -/
def Braces.Fits (hex rest : List Char) : Braces → Prop
  | none => hex.length ≤ 4 ∧ (hex.length < 4 → rest.head?.any isHexDigit = false) ∧
      (hex = [] → rest.head? ≠ some '{')
  | opened => rest.head?.any isHexDigit = false ∧ rest.head? ≠ some '}'
  | closed => True

instance (hex rest : List Char) : (braces : Braces) → Decidable (braces.Fits hex rest)
  | .none => inferInstanceAs (Decidable (_ ∧ _))
  | .opened => inferInstanceAs (Decidable (_ ∧ _))
  | .closed => inferInstanceAs (Decidable True)

namespace StringPiece

/-- A piece as it is written. -/
def text : StringPiece → List Char
  | plain c => [c]
  | escaped c => ['\\', c]
  | unicode braces hex => '\\' :: 'u' :: braces.around hex

/-- What is a piece if `rest` follows it. -/
def Fits (rest : List Char) : StringPiece → Prop
  | plain c => c ≠ '\\'
  | escaped c => c ≠ 'u'
  | unicode braces hex => (∀ d ∈ hex, isHexDigit d) ∧ braces.Fits hex rest

instance (rest : List Char) : (p : StringPiece) → Decidable (p.Fits rest)
  | plain c => inferInstanceAs (Decidable (c ≠ '\\'))
  | escaped c => inferInstanceAs (Decidable (c ≠ 'u'))
  | unicode braces hex =>
    decidable_of_iff (hex.all isHexDigit ∧ braces.Fits hex rest)
      (and_congr_left' List.all_eq_true)

/-- The characters that stand for control characters behind a backslash. -/
def controls : List (Char × Char) := [('n', '\n'), ('r', '\r'), ('t', '\t'), ('0', '\x00')]

/-- What a piece means. A Unicode escape that names no character is kept as it is written. -/
inductive Decodes : StringPiece → List Char → Prop
  | plain (c : Char) : Decodes (plain c) [c]
  | control {c d : Char} (h : (c, d) ∈ controls) : Decodes (escaped c) [d]
  | itself {c : Char} (h : c ∉ controls.map Prod.fst) : Decodes (escaped c) [c]
  | named {braces : Braces} {hex : List Char} {c : Char} (h : Names hex c) :
      Decodes (unicode braces hex) [c]
  | kept {braces : Braces} {hex : List Char} (h : ∀ c, ¬ Names hex c) :
      Decodes (unicode braces hex) (unicode braces hex).text

/-- A piece without the braces of its digits. -/
def unbraced : StringPiece → StringPiece
  | unicode _ hex => unicode .none hex
  | p => p

/-- An escape that is kept, but not with its braces. -/
def LosesBraces : StringPiece → Prop
  | unicode braces hex => braces ≠ .none ∧ ∀ c, ¬ Names hex c
  | _ => False

end StringPiece

/-- The text is cut into these pieces, from the left to the right. -/
inductive CutInto : List Char → List StringPiece → Prop
  | nil : CutInto [] []
  | cons {p : StringPiece} {ps : List StringPiece} {rest : List Char} (hp : p.Fits rest)
      (h : CutInto rest ps) : CutInto (p.text ++ rest) (p :: ps)

/-! ### Digits -/

section

variable {hex rest : List Char} {braces : Braces}

/-- Digits without braces do not look like digits in braces. -/
theorem Braces.Fits.head?_ne (hfits : Braces.none.Fits hex rest) (hhex : ∀ d ∈ hex, isHexDigit d) :
    (hex ++ rest).head? ≠ some '{' := by
  cases hex with
  | nil => exact hfits.2.2 rfl
  | cons d ds =>
    intro hd
    obtain rfl : d = '{' := Option.some.inj hd
    exact absurd (hhex '{' List.mem_cons_self) (by decide)

/-- The digits of an escape that fits, and how much it takes. -/
theorem unicodeDigits_around (hhex : ∀ d ∈ hex, isHexDigit d) (hfits : braces.Fits hex rest) :
    unicodeDigits (braces.around hex ++ rest) = (hex, (braces.around hex).length) := by
  cases braces with
  | none =>
    have hhead := hfits.head?_ne hhex
    obtain ⟨hfour, hend, -⟩ := hfits
    have htaken : ((hex ++ rest).takeWhile isHexDigit).take 4 = hex := by
      -- either all digits up to `rest` are taken or four of more
      rcases Nat.lt_or_eq_of_le hfour with hlt | hall
      · rw [takeWhile_append_of_head? hhex (hend hlt), List.take_of_length_le hfour]
      · rw [List.takeWhile_append_of_pos hhex, ← hall, List.take_left]
    rw [Braces.around, unicodeDigits_of_head?_ne hhead, htaken]
  | opened =>
    rw [Braces.around, List.cons_append, unicodeDigits,
      takeWhile_append_of_head? hhex hfits.1]
    simp [hfits.2, Nat.add_comm]
  | closed =>
    have hclosing : ('}' :: rest).head?.any isHexDigit = false := rfl
    rw [Braces.around, List.cons_append, List.append_assoc, unicodeDigits,
      List.singleton_append, takeWhile_append_of_head? hhex hclosing]
    simp [Nat.add_comm]

/-- An escape that fits is read by itself. -/
theorem unescape_around (hhex : ∀ d ∈ hex, isHexDigit d) (hfits : braces.Fits hex rest) :
    unescape ('\\' :: 'u' :: (braces.around hex ++ rest)) =
      unicodeMeaning hex ++ unescape rest := by
  rw [unescape_unicode, unicodeDigits_around hhex hfits, List.drop_left]

/-- Behind `\u` stands an escape. -/
theorem exists_around (cs : List Char) : ∃ (braces : Braces) (hex rest : List Char),
    cs = braces.around hex ++ rest ∧ (∀ d ∈ hex, isHexDigit d) ∧ braces.Fits hex rest := by
  have hdigits : ∀ cs : List Char, ∀ d ∈ cs.takeWhile isHexDigit, isHexDigit d := fun cs d hd =>
    List.all_eq_true.mp List.all_takeWhile d hd
  -- the character behind the `u` decides, and so does the one behind the digits
  by_cases hbrace : cs.head? = some '{'
  · obtain ⟨cs, rfl⟩ := List.head?_eq_some_iff.mp hbrace
    have hcs : cs.takeWhile isHexDigit ++ cs.dropWhile isHexDigit = cs :=
      List.takeWhile_append_dropWhile
    by_cases hclosing : (cs.dropWhile isHexDigit).head? = some '}'
    · obtain ⟨rest, hrest⟩ := List.head?_eq_some_iff.mp hclosing
      refine ⟨.closed, cs.takeWhile isHexDigit, rest, ?_, hdigits cs, trivial⟩
      rw [Braces.around, List.cons_append, List.append_assoc, List.singleton_append, ← hrest, hcs]
    · refine ⟨.opened, cs.takeWhile isHexDigit, _, ?_, hdigits cs,
        any_head?_dropWhile isHexDigit cs, hclosing⟩
      rw [Braces.around, List.cons_append, hcs]
  · have hprefix : (cs.takeWhile isHexDigit).take 4 <+: cs :=
      (List.take_prefix _ _).trans (List.takeWhile_prefix _)
    obtain ⟨rest, hrest⟩ := hprefix
    refine ⟨.none, _, rest, hrest.symm, fun d hd => hdigits cs d (List.mem_of_mem_take hd),
      List.length_take_le 4 _, fun hlt => ?_, fun hnil => ?_⟩
    · -- fewer than four digits are all that there are
      have hall : (cs.takeWhile isHexDigit).take 4 = cs.takeWhile isHexDigit := by
        rw [List.take_eq_self_iff]
        rw [List.length_take] at hlt
        omega
      rw [hall] at hrest
      rw [List.append_cancel_left (hrest.trans List.takeWhile_append_dropWhile.symm)]
      exact any_head?_dropWhile isHexDigit cs
    · rw [hnil] at hrest
      rwa [← hrest] at hbrace

/-- No backslash is among digits and braces. -/
theorem backslash_not_mem_around (hhex : ∀ d ∈ hex, isHexDigit d) :
    '\\' ∉ braces.around hex := by
  have hslash : '\\' ∉ hex := fun h => absurd (hhex _ h) (by decide)
  cases braces <;> simp [Braces.around, hslash]

end

/-! ### One piece -/

namespace StringPiece

variable {p q : StringPiece} {rest rest' ks ms ns : List Char} {c : Char} {hex : List Char}

/-- An escaped character means what it is read as. -/
theorem decodes_escaped_iff : (escaped c).Decodes ms ↔ ms = [escapedChar c] := by
  have hcontrol : ∀ d, (c, d) ∈ controls → escapedChar c = d := by
    intro d h
    simp only [controls, List.mem_cons, Prod.mk.injEq, List.not_mem_nil, or_false] at h
    rcases h with ⟨rfl, rfl⟩ | ⟨rfl, rfl⟩ | ⟨rfl, rfl⟩ | ⟨rfl, rfl⟩ <;> rfl
  have hitself : c ∉ controls.map Prod.fst → escapedChar c = c := by
    intro h
    rw [escapedChar.eq_def]
    split
    iterate 4 exact absurd (by decide) h
    rfl
  constructor
  · intro h
    cases h with
    | control h => rw [hcontrol _ h]
    | itself h => rw [hitself h]
  · rintro rfl
    by_cases h : c ∈ controls.map Prod.fst
    · obtain ⟨⟨c, d⟩, hd, rfl⟩ := List.mem_map.mp h
      rw [hcontrol d hd]
      exact .control hd
    · rw [hitself h]
      exact .itself h

/-- Without braces an escape means what it is read as. -/
theorem Decodes.eq_unicodeMeaning (h : (unicode .none hex).Decodes ms) :
    ms = unicodeMeaning hex := by
  cases h with
  | named h => rw [unicodeMeaning_of_names h]
  | kept h => exact (unicodeMeaning_of_nameless h).symm

/-- Every piece means something. -/
theorem exists_decodes (p : StringPiece) : ∃ ms, p.Decodes ms := by
  cases p with
  | plain c => exact ⟨_, .plain c⟩
  | escaped c => exact ⟨_, decodes_escaped_iff.mpr rfl⟩
  | unicode braces hex =>
    by_cases h : ∃ c, Names hex c
    · obtain ⟨c, hc⟩ := h
      exact ⟨_, .named hc⟩
    · exact ⟨_, .kept (not_exists.mp h)⟩

/-- A piece means one thing. -/
theorem Decodes.unique (h : p.Decodes ms) (h' : p.Decodes ns) : ms = ns := by
  cases p with
  | plain c =>
    cases h
    cases h'
    rfl
  | escaped c => rw [decodes_escaped_iff.mp h, decodes_escaped_iff.mp h']
  | unicode braces hex =>
    cases h with
    | named hc =>
      cases h' with
      | named hd => rw [hc.unique hd]
      | kept hnone => exact absurd hc (hnone _)
    | kept hnone =>
      cases h' with
      | named hd => exact absurd hd (hnone _)
      | kept _ => rfl

/-- A piece is read as itself without its braces, and what follows it is read by itself. -/
theorem Fits.unescape_text (hp : p.Fits rest) (hms : p.unbraced.Decodes ms) :
    unescape (p.text ++ rest) = ms ++ unescape rest := by
  cases p with
  | plain c =>
    cases hms
    exact unescape_cons hp rest
  | escaped c =>
    have hc : c ≠ 'u' := hp
    rw [decodes_escaped_iff.mp hms]
    simp [text, unescape]
  | unicode braces hex =>
    obtain ⟨hhex, hfits⟩ := hp
    rw [hms.eq_unicodeMeaning]
    exact unescape_around hhex hfits

/-- Only one piece fits at the start of a text. -/
theorem Fits.eq_of_append (hp : p.Fits rest) (hq : q.Fits rest')
    (h : p.text ++ rest = q.text ++ rest') : p = q ∧ rest = rest' := by
  cases p with
  | plain c =>
    cases q with
    | plain d =>
      obtain ⟨rfl, hrest⟩ := List.cons.inj h
      exact ⟨rfl, hrest⟩
    | escaped | unicode => exact absurd (List.cons.inj h).1 hp
  | escaped c =>
    cases q with
    | plain d => exact absurd (List.cons.inj h).1.symm hq
    | escaped d =>
      obtain ⟨rfl, hrest⟩ := List.cons.inj (List.cons.inj h).2
      exact ⟨rfl, hrest⟩
    | unicode => exact absurd (List.cons.inj (List.cons.inj h).2).1 hp
  | unicode braces hex =>
    cases q with
    | plain d => exact absurd (List.cons.inj h).1.symm hq
    | escaped d => exact absurd (List.cons.inj (List.cons.inj h).2).1.symm hq
    | unicode braces' hex' =>
      have htext : braces.around hex ++ rest = braces'.around hex' ++ rest' :=
        (List.cons.inj (List.cons.inj h).2).2
      -- the digits and their number are read off the text
      have hdigits := unicodeDigits_around hp.1 hp.2
      rw [htext, unicodeDigits_around hq.1 hq.2] at hdigits
      obtain ⟨rfl, hlength⟩ := Prod.mk.inj hdigits
      obtain ⟨haround, hrest⟩ := List.append_inj htext hlength.symm
      -- pieces of the same length with the same digits have the same braces
      have hbraces : braces = braces' := by
        cases braces <;> cases braces' <;> grind [Braces.around]
      exact ⟨by rw [hbraces], hrest⟩

/-- What an escape without its braces means is shorter, or the same. -/
theorem Decodes.unbraced_cases (hks : p.unbraced.Decodes ks) (hms : p.Decodes ms) :
    (p.LosesBraces ∧ ks.length < ms.length) ∨ (¬ p.LosesBraces ∧ ks = ms) := by
  cases p with
  | plain | escaped => exact Or.inr ⟨not_false, hks.unique hms⟩
  | unicode braces hex =>
    rw [unbraced] at hks
    cases hms with
    | named hc => exact Or.inr ⟨fun h => h.2 _ hc, hks.unique (.named hc)⟩
    | kept hnone =>
      obtain rfl := hks.unique (.kept hnone)
      cases braces with
      | none => exact Or.inr ⟨fun h => h.1 rfl, rfl⟩
      | opened | closed =>
        refine Or.inl ⟨⟨by decide, hnone⟩, ?_⟩
        simp only [text, Braces.around, List.length_cons, List.length_append]
        omega

end StringPiece

/-! ### All pieces -/

section

variable {quote : Char} {body : List Char} {ps qs : List StringPiece} {kss mss : List (List Char)}

/-- There is one way to cut a text. -/
theorem CutInto.unique (h : CutInto body ps) (h' : CutInto body qs) : ps = qs := by
  -- by induction on the cut: the first piece is determined by the text, and so is what is left
  induction h generalizing qs with
  | nil =>
    generalize htext : ([] : List Char) = text at h'
    cases h' with
    | nil => rfl
    | @cons p _ rest => cases p <;> exact absurd htext (by simp [StringPiece.text])
  | @cons p ps rest hp _ ih =>
    generalize htext : p.text ++ rest = text at h'
    cases h' with
    | nil => cases p <;> exact absurd htext (by simp [StringPiece.text])
    | cons hq h' =>
      obtain ⟨rfl, rfl⟩ := hp.eq_of_append hq htext
      rw [ih h']

/-- Every body is cut into pieces. -/
theorem exists_cutInto (h : IsStringBody quote body) : ∃ ps, CutInto body ps := by
  -- by the recursion of the reading, which takes one piece at a time
  fun_induction unescape body with
  | case1 => exact ⟨[], .nil⟩
  | case2 => cases h with | char _ hslash => exact absurd rfl hslash
  | case3 rest hex length hdigits ih =>
    obtain ⟨braces, hex', rest', rfl, hhex, hfits⟩ := exists_around rest
    have hbody : IsStringBody quote rest' := by
      have hslash : '\\' ∉ braces.around hex' := backslash_not_mem_around hhex
      refine IsStringBody.of_append ?_ hslash
      cases h with
      | char _ hslash => exact absurd rfl hslash
      | pair _ h => exact h
    rw [unicodeDigits_around hhex hfits] at hdigits
    obtain ⟨rfl, rfl⟩ := Prod.mk.inj hdigits
    rw [List.drop_left] at ih
    obtain ⟨ps, hps⟩ := ih hbody
    have hp : StringPiece.Fits rest' (.unicode braces hex') := ⟨hhex, hfits⟩
    exact ⟨_, .cons hp hps⟩
  | case4 c rest hc ih =>
    cases h with
    | char _ hslash => exact absurd rfl hslash
    | pair _ h =>
      obtain ⟨ps, hps⟩ := ih h
      have hp : StringPiece.Fits rest (.escaped c) := hc
      exact ⟨_, .cons hp hps⟩
  | case5 c rest _ _ hpair ih =>
    cases h with
    | pair => exact absurd rfl (hpair _ _ rfl)
    | char _ hslash _ h =>
      obtain ⟨ps, hps⟩ := ih h
      have hp : StringPiece.Fits rest (.plain c) := hslash
      exact ⟨_, .cons hp hps⟩

/-- A text means what its pieces mean without their braces. -/
theorem CutInto.unescape_eq (h : CutInto body ps)
    (hkss : List.Forall₂ StringPiece.Decodes (ps.map .unbraced) kss) :
    unescape body = kss.flatten := by
  induction h generalizing kss with
  | nil =>
    cases hkss
    rw [unescape, List.flatten_nil]
  | cons hp _ ih =>
    rw [List.map_cons] at hkss
    cases hkss with
    | cons hks hkss => rw [hp.unescape_text hks, ih hkss, List.flatten_cons]

/-- All pieces mean something. -/
theorem exists_forall₂_decodes (ps : List StringPiece) :
    ∃ mss, List.Forall₂ StringPiece.Decodes ps mss := by
  choose meaning hmeaning using StringPiece.exists_decodes
  exact ⟨ps.map meaning,
    List.forall₂_map_right_iff.mpr (List.forall₂_same.mpr fun p _ => hmeaning p)⟩

/-- Without braces pieces mean less, unless none of them loses any. -/
theorem flatten_unbraced (hkss : List.Forall₂ StringPiece.Decodes (ps.map .unbraced) kss)
    (hmss : List.Forall₂ StringPiece.Decodes ps mss) :
    kss.flatten.length ≤ mss.flatten.length ∧
      (kss.flatten = mss.flatten ↔ ∀ p ∈ ps, ¬ p.LosesBraces) := by
  induction hmss generalizing kss with
  | nil =>
    cases hkss
    simp
  | @cons p ms ps mss hms _ ih =>
    rw [List.map_cons] at hkss
    cases hkss with
    | @cons _ ks _ kss hks hkss =>
      obtain ⟨hle, hiff⟩ := ih hkss
      rw [List.flatten_cons, List.flatten_cons, List.length_append, List.length_append,
        List.forall_mem_cons]
      -- a piece that loses its braces is shorter, and no other piece is longer to make up for it
      rcases hks.unbraced_cases hms with ⟨hloses, hlt⟩ | ⟨hkeeps, rfl⟩
      · refine ⟨by omega, iff_of_false (fun h => ?_) fun h => h.1 hloses⟩
        have hlength := congrArg List.length h
        rw [List.length_append, List.length_append] at hlength
        omega
      · rw [List.append_cancel_left_eq, hiff]
        exact ⟨Nat.add_le_add_left hle _, (and_iff_right hkeeps).symm⟩

end

/-! ## The meaning of a string -/

/-- A body is cut into pieces in one way, and each of them has one meaning. The body means what the
pieces mean, one after the other, exactly if every Unicode escape with braces names a character: one
that does not is kept without its braces. Wherever the body stands between its quotes, it is read as
one string with the meaning of the body. -/
theorem unescape_exact {quote : Char} {body : List Char} (hquote : quote = '"' ∨ quote = '\'')
    (h : IsStringBody quote body) :
    ∃ ps mss, CutInto body ps ∧ (∀ qs, CutInto body qs → qs = ps) ∧
      List.Forall₂ StringPiece.Decodes ps mss ∧
      (∀ nss, List.Forall₂ StringPiece.Decodes ps nss → nss = mss) ∧
      (unescape body = mss.flatten ↔ ∀ p ∈ ps, ¬ p.LosesBraces) ∧
      (∃ kss, List.Forall₂ StringPiece.Decodes (ps.map .unbraced) kss ∧
        unescape body = kss.flatten) ∧
      ∀ rest, scan quote (body ++ quote :: rest) =
        (.token (.string (String.ofList (unescape body))), body.length + 1) := by
  obtain ⟨ps, hps⟩ := exists_cutInto h
  obtain ⟨mss, hmss⟩ := exists_forall₂_decodes ps
  obtain ⟨kss, hkss⟩ := exists_forall₂_decodes (ps.map .unbraced)
  have hmeaning := hps.unescape_eq hkss
  have hunique : Relator.RightUnique StringPiece.Decodes := fun _ _ _ => StringPiece.Decodes.unique
  refine ⟨ps, mss, hps, fun qs hqs => hqs.unique hps, hmss, fun nss hnss =>
    hunique.forall₂ hnss hmss, ?_, ⟨kss, hkss, hmeaning⟩, fun rest => ?_⟩
  · rw [hmeaning]
    exact (flatten_unbraced hkss hmss).2
  · rw [scan_of_quote hquote, h.stringBody_eq (backslash_ne_of_quote hquote) rest, if_pos rfl]

/-! ### Surrogates -/

/-- A surrogate is no character. -/
theorem not_names_surrogate (c : Char) : ¬ Names ['D', '8', '0', '0'] c := by
  rintro ⟨-, hcode⟩
  have hsurrogate : Nat.ofDigits 16 (['D', '8', '0', '0'].map hexDigitValue).reverse = 0xD800 := by
    decide
  have hvalid : c.toNat.isValidChar := c.valid
  rw [hcode] at hsurrogate
  rw [hsurrogate] at hvalid
  exact absurd hvalid (by decide)

/-! ### Every kind of piece -/

/-- A backslash in front of a quote, digits behind one brace, a surrogate with a character behind it
that could be a digit, digits in braces, and a control character. -/
def mixedPieces : List StringPiece :=
  [.escaped '\'', .unicode .opened ['4', '1'], .unicode .none ['D', '8', '0', '0'], .plain 'B',
    .unicode .closed ['7', 'A'], .escaped 't']

/-- The pieces as they are written. -/
def mixedBody : List Char := mixedPieces.flatMap StringPiece.text

/-- The text is a body. -/
theorem isStringBody_mixedBody : IsStringBody '\'' mixedBody := by
  have hread : stringBody '\'' (mixedBody ++ ['\'']) = (mixedBody, true) := by decide
  exact ((stringBody_eq_iff (by decide)).mp hread).1

/-- The text is cut into these pieces. -/
theorem cutInto_mixedBody : CutInto mixedBody mixedPieces :=
  .cons (by decide) (.cons (by decide) (.cons (by decide) (.cons (by decide)
    (.cons (by decide) (.cons (by decide) .nil)))))

/-- What the pieces mean. -/
theorem decodes_mixedPieces : List.Forall₂ StringPiece.Decodes mixedPieces
    [['\''], ['A'], ['\\', 'u', 'D', '8', '0', '0'], ['B'], ['z'], ['\t']] :=
  .cons (.itself (by decide)) (.cons (.named (by decide)) (.cons (.kept not_names_surrogate)
    (.cons (.plain 'B') (.cons (.named (by decide)) (.cons (.control (by decide)) .nil)))))

/-- Where no braces are lost, the text means what its pieces mean. -/
theorem unescape_exact_mixedBody :
    ('\'' = '"' ∨ '\'' = '\'') ∧ IsStringBody '\'' mixedBody ∧
      unescape mixedBody = ['\'', 'A', '\\', 'u', 'D', '8', '0', '0', 'B', 'z', '\t'] := by
  have hquote : '\'' = '"' ∨ '\'' = '\'' := Or.inr rfl
  obtain ⟨ps, mss, -, hps, -, hmss, hiff, -, -⟩ := unescape_exact hquote isStringBody_mixedBody
  obtain rfl := hps _ cutInto_mixedBody
  obtain rfl := hmss _ decodes_mixedPieces
  refine ⟨hquote, isStringBody_mixedBody, hiff.mpr ?_⟩
  simp only [mixedPieces, List.forall_mem_cons, List.not_mem_nil, false_imp_iff, implies_true]
  exact ⟨not_false, fun h => h.2 'A' (by decide), fun h => h.1 rfl, not_false,
    fun h => h.2 'z' (by decide), not_false, trivial⟩

/-- A surrogate in braces is kept without them, so that the text does not mean what it should. -/
theorem not_unescape_surrogate :
    tokenize "'\\u\x7bD800\x7d'" =
      .ok [⟨.string "\\uD800", ⟨0, 10, 1, 1⟩⟩, ⟨.eof, ⟨10, 10, 1, 11⟩⟩] ∧
    ¬ ∀ quote body ps mss, (quote = '"' ∨ quote = '\'') → IsStringBody quote body →
      CutInto body ps → List.Forall₂ StringPiece.Decodes ps mss → unescape body = mss.flatten := by
  refine ⟨by decide +kernel, fun hall => ?_⟩
  have hread : stringBody '\'' ['\\', 'u', '{', 'D', '8', '0', '0', '}', '\''] =
      (['\\', 'u', '{', 'D', '8', '0', '0', '}'], true) := by decide
  have hcut : CutInto ['\\', 'u', '{', 'D', '8', '0', '0', '}']
      [.unicode .closed ['D', '8', '0', '0']] :=
    .cons (p := .unicode .closed ['D', '8', '0', '0']) (by decide) .nil
  have hmeaning : List.Forall₂ StringPiece.Decodes [.unicode .closed ['D', '8', '0', '0']]
      [['\\', 'u', '{', 'D', '8', '0', '0', '}']] := .cons (.kept not_names_surrogate) .nil
  have hbody := ((stringBody_eq_iff (by decide)).mp hread).1
  have hkept := hall '\'' _ _ _ (Or.inr rfl) hbody hcut hmeaning
  rw [hcut.unescape_eq (.cons (.kept not_names_surrogate) .nil)] at hkept
  exact absurd hkept (by decide)

end TypeAssay
