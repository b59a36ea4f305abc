import IndentScript.Parser.Error
import IndentScript.Proofs.Spelling

/-!
# Messages

A message is a place in brackets and a description. Numbers end at the mark that follows them and
names of kinds at the next space, so a message can be taken apart whatever texts it holds: two
errors with the same message are the same error.
-/

namespace IndentScript

/-! ## Numbers before a mark -/

namespace Numeral

theorem exists_digitChar {base n : Nat} (hbase : 1 < base) {c : Char}
    (hc : c ∈ Nat.toDigits base n) : ∃ d, c = Nat.digitChar d := by
  induction n using Nat.strongRecOn with
  | ind n ih =>
      rw [Nat.toDigits_eq_if hbase] at hc
      split at hc
      · exact ⟨n, List.mem_singleton.1 hc⟩
      · rcases List.mem_append.1 hc with hc | hc
        · exact ih (n / base) (Nat.div_lt_self (by omega) hbase) hc
        · exact ⟨n % base, List.mem_singleton.1 hc⟩

theorem digitChar_inj : ∀ d < 16, ∀ e < 16, Nat.digitChar d = Nat.digitChar e → d = e := by
  decide

/-- Digits determine their number. -/
theorem toDigits_inj {base m n : Nat} (hbase : 1 < base) (hle : base ≤ 16)
    (h : Nat.toDigits base m = Nat.toDigits base n) : m = n := by
  induction m using Nat.strongRecOn generalizing n with
  | ind m ih =>
      have hmod : ∀ k, k % base < 16 := fun k =>
        Nat.lt_of_lt_of_le (Nat.mod_lt k (by omega)) hle
      have hlonger : ∀ k d e, [d] ≠ Nat.toDigits base k ++ [e] := fun k d e heq =>
        Nat.toDigits_ne_nil (List.append_singleton_inj.1 heq).1.symm
      rw [Nat.toDigits_eq_if hbase, Nat.toDigits_eq_if hbase (n := n)] at h
      by_cases hm : m < base <;> by_cases hn : n < base
      · rw [if_pos hm, if_pos hn, List.singleton_inj] at h
        exact digitChar_inj m (by omega) n (by omega) h
      · rw [if_pos hm, if_neg hn] at h
        exact absurd h (hlonger _ _ _)
      · rw [if_neg hm, if_pos hn] at h
        exact absurd h.symm (hlonger _ _ _)
      · -- the last digits are the remainders, the others are the digits of the quotients
        rw [if_neg hm, if_neg hn, List.append_singleton_inj] at h
        have hquotient := ih (m / base) (Nat.div_lt_self (by omega) hbase) h.1
        have hremainder := digitChar_inj _ (hmod m) _ (hmod n) h.2
        rw [← Nat.div_add_mod m base, hquotient, hremainder, Nat.div_add_mod]

/-- A number ends at a mark that is no digit in any base. -/
theorem toDigits_append_inj {base m n : Nat} (hbase : 1 < base) (hle : base ≤ 16) {mark : Char}
    (hmark : ∀ d, Nat.digitChar d ≠ mark) {r s : List Char}
    (h : Nat.toDigits base m ++ mark :: r = Nat.toDigits base n ++ mark :: s) : m = n ∧ r = s := by
  have hdigits : ∀ k, ∀ c ∈ Nat.toDigits base k, (c != mark) = true := by
    intro k c hc
    obtain ⟨d, rfl⟩ := exists_digitChar hbase hc
    exact bne_iff_ne.2 (hmark d)
  obtain ⟨hnumber, hrest⟩ := append_inj_of_stop (hdigits m) (hdigits n) (by simp) (by simp) h
  exact ⟨toDigits_inj hbase hle hnumber, (List.cons.inj hrest).2⟩

end Numeral

/-! ## Places -/

theorem Location.toList_render (l : Location) :
    l.render.toList = Nat.toDigits 10 l.line ++ ':' :: Nat.toDigits 10 l.column := by
  simp [render]

/-- A place in brackets at the head of a text is determined, and so is the text behind it. -/
theorem Location.heading_inj {l m : Location} {s t : String}
    (h : "[" ++ l.render ++ "] " ++ s = "[" ++ m.render ++ "] " ++ t) : l = m ∧ s = t := by
  have hchars : ∀ (l : Location) (s : String), ("[" ++ l.render ++ "] " ++ s).toList =
      '[' :: (Nat.toDigits 10 l.line ++ ':' :: (Nat.toDigits 10 l.column ++
        ']' :: ' ' :: s.toList)) := by
    intro l s
    simp [toList_render]
  rw [← String.toList_inj, hchars, hchars] at h
  obtain ⟨hline, hrest⟩ := Numeral.toDigits_append_inj (by decide) (by decide)
    (fun _ => Nat.digitChar_ne ':' rfl) (List.cons.inj h).2
  obtain ⟨hcolumn, htext⟩ := Numeral.toDigits_append_inj (by decide) (by decide)
    (fun _ => Nat.digitChar_ne ']' rfl) hrest
  exact ⟨congrArg₂ Location.mk hline hcolumn, String.toList_inj.1 (List.cons.inj htext).2⟩

/-! ## Names of kinds -/

namespace Kind

theorem space_not_mem_name (k : Kind) : ' ' ∉ k.name.toList := by
  cases k <;> decide

/-- A name ends at the next space, with a mark in front of the space or without. -/
theorem name_append_inj {k l : Kind} {mark r s : List Char} (hmark : ' ' ∉ mark)
    (hr : ∀ c ∈ r.head?, c = ' ') (hs : ∀ c ∈ s.head?, c = ' ')
    (h : k.name.toList ++ mark ++ r = l.name.toList ++ mark ++ s) : k = l ∧ r = s := by
  have hword : ∀ k : Kind, ∀ c ∈ k.name.toList ++ mark, (c != ' ') = true := by
    intro k c hc
    refine bne_iff_ne.2 fun hspace => ?_
    subst hspace
    rcases List.mem_append.1 hc with hc | hc
    · exact k.space_not_mem_name hc
    · exact hmark hc
  obtain ⟨hname, hrest⟩ := append_inj_of_stop (hword k) (hword l)
    (fun c hc => by rw [hr c hc]; rfl) (fun c hc => by rw [hs c hc]; rfl) h
  exact ⟨name_injective (String.toList_inj.1 (List.append_cancel_right hname)), hrest⟩

/-- A name and the text behind it are determined, though an empty text leaves out the space. -/
theorem name_append_text_inj {shown : String → String} (hshown : Function.Injective shown)
    {k l : Kind} {s t : String}
    (h : k.name ++ (if s = "" then "" else " " ++ shown s) =
      l.name ++ (if t = "" then "" else " " ++ shown t)) : k = l ∧ s = t := by
  have hchars : ∀ (k : Kind) (s : String),
      (k.name ++ (if s = "" then "" else " " ++ shown s)).toList =
        k.name.toList ++ [] ++ if s = "" then [] else ' ' :: (shown s).toList := by
    intro k s
    split <;> simp
  have hspace : ∀ s : String, ∀ c ∈ (if s = "" then [] else ' ' :: (shown s).toList).head?,
      c = ' ' := by
    intro s c hc
    split at hc
    · cases hc
    · exact (Option.some.inj hc).symm
  rw [← String.toList_inj, hchars, hchars] at h
  obtain ⟨hkind, htext⟩ := name_append_inj List.not_mem_nil (hspace s) (hspace t) h
  refine ⟨hkind, ?_⟩
  by_cases hs : s = "" <;> by_cases ht : t = ""
  · rw [hs, ht]
  · simp [hs, ht] at htext
  · simp [hs, ht] at htext
  · rw [if_neg hs, if_neg ht] at htext
    exact hshown (String.toList_inj.1 (List.cons.inj htext).2)

end Kind

/-! ## Errors -/

namespace ParseError

/-- What the description of an error begins with. -/
def opening : ParseError → String
  | unexpectedToken _ _ _ => "Unexpected token: "
  | expectedToken _ _ _ => "Expected "
  | invalidAssignmentTarget _ => "Invalid left-hand side in assignment expression"
  | invalidNumberLiteral _ _ => "Invalid number literal: "

theorem description_unexpectedToken (k : Kind) (s : String) (l : Location) :
    (unexpectedToken k s l).description =
      "Unexpected token: " ++ (k.name ++ if s = "" then "" else " " ++ ("'" ++ s ++ "'")) := by
  change "Unexpected token: " ++ k.name ++ (if s = "" then "" else " '" ++ s ++ "'") = _
  have hquote : " '" = " " ++ "'" := by decide
  rw [hquote, String.append_assoc, String.append_assoc, String.append_assoc, String.append_assoc]

theorem description_expectedToken (k k' : Kind) (l : Location) :
    (expectedToken k k' l).description = "Expected " ++ (k.name ++ ", but got " ++ k'.name) := by
  change "Expected " ++ k.name ++ ", but got " ++ k'.name = _
  rw [String.append_assoc, String.append_assoc, String.append_assoc]

theorem exists_description (e : ParseError) : ∃ rest, e.description = e.opening ++ rest := by
  cases e with
  | unexpectedToken k s l => exact ⟨_, description_unexpectedToken k s l⟩
  | expectedToken k k' l => exact ⟨_, description_expectedToken k k' l⟩
  | invalidAssignmentTarget => exact ⟨"", String.append_empty.symm⟩
  | invalidNumberLiteral s => exact ⟨s, rfl⟩

theorem opening_eq {e f : ParseError} (h : e.description = f.description) :
    e.opening = f.opening := by
  obtain ⟨r, hr⟩ := e.exists_description
  obtain ⟨s, hs⟩ := f.exists_description
  rw [hr, hs, ← String.toList_inj, String.toList_append, String.toList_append] at h
  have hprefix := List.prefix_or_prefix_of_prefix (List.prefix_append e.opening.toList r.toList)
    (h ▸ List.prefix_append f.opening.toList s.toList)
  -- no opening begins another
  revert hprefix
  cases e <;> cases f <;> simp only [opening] <;> decide

theorem description_unexpectedToken_inj {k k' : Kind} {s s' : String} {l l' : Location}
    (h : (unexpectedToken k s l).description = (unexpectedToken k' s' l').description) :
    k = k' ∧ s = s' := by
  have hshown : Function.Injective fun s => "'" ++ s ++ "'" := fun s t hst =>
    (String.append_right_inj _).1 ((String.append_left_inj _).1 hst)
  rw [description_unexpectedToken, description_unexpectedToken, String.append_right_inj] at h
  exact Kind.name_append_text_inj hshown h

theorem description_expectedToken_inj {k k' m m' : Kind} {l l' : Location}
    (h : (expectedToken k m l).description = (expectedToken k' m' l').description) :
    k = k' ∧ m = m' := by
  -- the comma belongs to what stands before the space, as a name may be a comma itself
  have hchars : ∀ k m : Kind, (k.name ++ ", but got " ++ m.name).toList =
      k.name.toList ++ [','] ++ (" but got ".toList ++ m.name.toList) := by
    intro k m
    simp
  rw [description_expectedToken, description_expectedToken, String.append_right_inj,
    ← String.toList_inj, hchars, hchars] at h
  obtain ⟨hexpected, hfound⟩ := Kind.name_append_inj (by decide) (by simp) (by simp) h
  rw [List.append_cancel_left_eq, String.toList_inj] at hfound
  exact ⟨hexpected, Kind.name_injective hfound⟩

theorem eq_of_description {e f : ParseError} (h : e.description = f.description)
    (hlocation : e.location = f.location) : e = f := by
  have hopening := opening_eq h
  cases e with
  | unexpectedToken =>
      cases f with
      | unexpectedToken =>
          obtain ⟨rfl, rfl⟩ := description_unexpectedToken_inj h
          exact congrArg _ hlocation
      | _ => simp [opening] at hopening
  | expectedToken =>
      cases f with
      | expectedToken =>
          obtain ⟨rfl, rfl⟩ := description_expectedToken_inj h
          exact congrArg _ hlocation
      | _ => simp [opening] at hopening
  | invalidAssignmentTarget =>
      cases f with
      | invalidAssignmentTarget => exact congrArg _ hlocation
      | _ => simp [opening] at hopening
  | invalidNumberLiteral =>
      cases f with
      | invalidNumberLiteral =>
          cases (String.append_right_inj "Invalid number literal: ").1 h
          exact congrArg _ hlocation
      | _ => simp [opening] at hopening

/-- The message of an error says which error it is. -/
theorem message_eq_iff (e f : ParseError) : e.message = f.message ↔ e = f := by
  constructor
  · intro h
    obtain ⟨hlocation, hdescription⟩ := Location.heading_inj h
    exact eq_of_description hdescription hlocation
  · exact congrArg message

end ParseError

end IndentScript
