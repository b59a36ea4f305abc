import IndentScript.Proofs.Messages

/-!
# Dump lines

A text between quotes can be told character by character: no form of a character begins that of
another, and none begins with the quote that ends the text. So a dump line says which token it
shows, and it is one line, as no line break is left as it is.
-/

namespace IndentScript

/-! ## Texts on one line -/

namespace Text

/-- No character of the text ends a line. -/
def OneLine (text : List Char) : Prop :=
  ∀ c ∈ text, c ≠ '\n' ∧ c ≠ '\r'

instance (text : List Char) : Decidable (OneLine text) :=
  List.decidableBAll (fun c => c ≠ '\n' ∧ c ≠ '\r') text

theorem OneLine.append {x y : List Char} (hx : OneLine x) (hy : OneLine y) : OneLine (x ++ y) :=
  List.forall_mem_append.2 ⟨hx, hy⟩

theorem OneLine.toList_append {s t : String} (hs : OneLine s.toList) (ht : OneLine t.toList) :
    OneLine (s ++ t).toList := by
  rw [String.toList_append]
  exact hs.append ht

theorem OneLine.cons {x : List Char} (hx : OneLine x) {c : Char} (hc : c ≠ '\n' ∧ c ≠ '\r') :
    OneLine (c :: x) :=
  List.forall_mem_cons.2 ⟨hc, hx⟩

theorem oneLine_toDigits {base : Nat} (hbase : 1 < base) (n : Nat) :
    OneLine (Nat.toDigits base n) := by
  intro c hc
  obtain ⟨d, rfl⟩ := Numeral.exists_digitChar hbase hc
  exact ⟨Nat.digitChar_ne '\n' rfl, Nat.digitChar_ne '\r' rfl⟩

end Text

open Text

theorem Location.oneLine_render (l : Location) : OneLine l.render.toList := by
  rw [toList_render]
  exact (oneLine_toDigits (by decide) _).append
    ((oneLine_toDigits (by decide) _).cons (by decide))

theorem Kind.oneLine_name (k : Kind) : OneLine k.name.toList := by
  cases k <;> decide

/-! ## The forms of a character -/

namespace Text

/-- The characters that have a letter behind the backslash, with the letter. -/
def shortForms : List (Char × Char) :=
  [('"', '"'), ('\\', '\\'), ('\t', 't'), ('\r', 'r'), ('\n', 'n'), ('\x00', '0')]

/-- The forms between quotes. It is left open which characters are written as their code point. -/
inductive Form : Char → List Char → Prop
  | short {c letter : Char} (h : (c, letter) ∈ shortForms) : Form c ['\\', letter]
  | number (c : Char) : Form c ('\\' :: 'u' :: '\x7b' :: (codePoint c ++ ['\x7d']))
  | itself {c : Char} (h : ∀ p ∈ shortForms, c ≠ p.1) : Form c [c]

theorem form_escape (c : Char) : Form c (escape c) := by
  unfold escape
  split
  case h_7 hquote hbackslash htab hreturn hnewline hzero =>
    split
    · exact .number c
    · refine .itself ?_
      simpa [shortForms] using ⟨hquote, hbackslash, htab, hreturn, hnewline, hzero⟩
  all_goals exact .short (by decide)

/-- The letters tell the characters apart, and the letter before a code point is none of them. -/
theorem letter_inj : ∀ p ∈ shortForms, p.2 ≠ 'u' ∧ ∀ q ∈ shortForms, p.2 = q.2 → p.1 = q.1 := by
  decide

theorem codePoint_append_inj {c d : Char} {r s : List Char}
    (h : codePoint c ++ '\x7d' :: r = codePoint d ++ '\x7d' :: s) : c = d ∧ r = s := by
  obtain ⟨hnumber, hrest⟩ := Numeral.toDigits_append_inj (by decide) (by decide)
    (fun _ => Nat.digitChar_ne '\x7d' rfl) h
  exact ⟨Char.toNat_inj.1 hnumber, hrest⟩

namespace Form

variable {c d : Char} {x y : List Char}

/-- A form is determined by a text that it begins, and so is its character. -/
theorem append_inj (hx : Form c x) (hy : Form d y) {r s : List Char} (h : x ++ r = y ++ s) :
    c = d ∧ r = s := by
  have hbackslash : ('\\', '\\') ∈ shortForms := by decide
  cases hx with
  | short hc =>
      cases hy with
      | short hd =>
          obtain ⟨hletter, hrest⟩ := List.cons.inj (List.cons.inj h).2
          exact ⟨(letter_inj _ hc).2 _ hd hletter, hrest⟩
      | number => exact absurd (List.cons.inj (List.cons.inj h).2).1 (letter_inj _ hc).1
      | itself hd => exact absurd (List.cons.inj h).1.symm (hd _ hbackslash)
  | number =>
      cases hy with
      | short hd => exact absurd (List.cons.inj (List.cons.inj h).2).1.symm (letter_inj _ hd).1
      | number => exact codePoint_append_inj (by simpa using h)
      | itself hd => exact absurd (List.cons.inj h).1.symm (hd _ hbackslash)
  | itself hc =>
      cases hy with
      | short | number => exact absurd (List.cons.inj h).1 (hc _ hbackslash)
      | itself => exact List.cons.inj h

/-- No form begins like the end of a quoted text. -/
theorem append_ne_quote (h : Form c x) (r s : List Char) : x ++ r ≠ '"' :: s := by
  intro heq
  cases h with
  | short | number => cases (List.cons.inj heq).1
  | itself hc => exact hc ('"', '"') (by decide) (List.cons.inj heq).1

theorem oneLine (h : Form c x) : OneLine x := by
  cases h with
  | short hc =>
      have hletter : ∀ p ∈ shortForms, OneLine ['\\', p.2] := by decide
      exact hletter _ hc
  | number =>
      have hpoint : OneLine (codePoint c) := oneLine_toDigits (by decide) c.toNat
      exact OneLine.append (x := ['\\', 'u', '\x7b']) (by decide) (hpoint.append (by decide))
  | itself hc =>
      have hnil : OneLine [] := by decide
      exact hnil.cons ⟨hc ('\n', 'n') (by decide), hc ('\r', 'r') (by decide)⟩

end Form

/-! ## Quoted texts -/

theorem escape_append_inj {text text' r r' : List Char}
    (h : text.flatMap escape ++ '"' :: r = text'.flatMap escape ++ '"' :: r') :
    text = text' ∧ r = r' := by
  induction text generalizing text' with
  | nil =>
      cases text' with
      | nil => exact ⟨rfl, (List.cons.inj h).2⟩
      | cons d text' =>
          rw [List.flatMap_cons, List.append_assoc] at h
          exact absurd h.symm ((form_escape d).append_ne_quote _ _)
  | cons c text ih =>
      rw [List.flatMap_cons, List.append_assoc] at h
      cases text' with
      | nil => exact absurd h ((form_escape c).append_ne_quote _ _)
      | cons d text' =>
          rw [List.flatMap_cons, List.append_assoc] at h
          obtain ⟨rfl, htail⟩ := (form_escape c).append_inj (form_escape d) h
          obtain ⟨rfl, hrest⟩ := ih htail
          exact ⟨rfl, hrest⟩

theorem quote_injective : Function.Injective quote := by
  intro s t h
  rw [quote, quote, String.ofList_inj, List.cons.injEq] at h
  exact String.toList_inj.1 (escape_append_inj h.2).1

-- a text that spells an escape is escaped itself
example : quote "\n" = "\"\\n\"" ∧ quote "\\n" = "\"\\\\n\"" := by decide +kernel

theorem oneLine_quote (s : String) : OneLine (quote s).toList := by
  have hbody : OneLine (s.toList.flatMap escape) := by
    intro c hc
    obtain ⟨d, -, hd⟩ := List.mem_flatMap.1 hc
    exact (form_escape d).oneLine c hd
  rw [quote, String.toList_ofList]
  exact (hbody.append (by decide)).cons (by decide)

end Text

/-! ## Dump lines -/

namespace Token

theorem render_eq (t : Token) : t.render = "[" ++ t.location.render ++ "] " ++
    (t.kind.name ++ if t.text = "" then "" else " " ++ Text.quote t.text) := by
  rw [render, String.append_assoc]

theorem render_inj {t u : Token} (h : t.render = u.render) :
    t.kind = u.kind ∧ t.text = u.text ∧ t.location = u.location := by
  rw [render_eq, render_eq] at h
  obtain ⟨hlocation, hrest⟩ := Location.heading_inj h
  obtain ⟨hkind, htext⟩ := Kind.name_append_text_inj Text.quote_injective hrest
  exact ⟨hkind, htext, hlocation⟩

theorem oneLine_render (t : Token) : OneLine t.render.toList := by
  have hplace : OneLine ("[" ++ t.location.render ++ "] ").toList :=
    (OneLine.toList_append (by decide) t.location.oneLine_render).toList_append (by decide)
  have htext : OneLine (if t.text = "" then "" else " " ++ Text.quote t.text).toList := by
    split
    · decide
    · exact OneLine.toList_append (by decide) (Text.oneLine_quote t.text)
  rw [render_eq]
  exact hplace.toList_append (t.kind.oneLine_name.toList_append htext)

/-- A dump line says which token it shows, and it is one line. -/
theorem render_lossless :
    (∀ t u : Token, t.render = u.render ↔
      t.kind = u.kind ∧ t.text = u.text ∧ t.location = u.location) ∧
    ∀ t : Token, '\n' ∉ t.render.toList ∧ '\r' ∉ t.render.toList := by
  refine ⟨fun t u => ⟨render_inj, ?_⟩, fun t => ?_⟩
  · rintro ⟨hkind, htext, hlocation⟩
    rw [render, render, hkind, htext, hlocation]
  · exact ⟨fun h => (t.oneLine_render _ h).1 rfl, fun h => (t.oneLine_render _ h).2 rfl⟩

end Token

end IndentScript
