import IndentScript.Proofs.Spelling

/-!
# Terms on one line

The format that trees are written in, without what the parts of a tree mean: words, texts between
quotes, nodes with their parts in parentheses, and lists in brackets. Nothing is escaped. Words
without marks and texts without quotes still make it unambiguous: a term can be told from the text
that it begins.
-/

namespace IndentScript

inductive Term where
  | word (text : String)
  | quoted (text : String)
  | node (name : String) (parts : List Term)
  | list (items : List Term)

/-- The characters that stand around the parts of a term. -/
def Term.isMark (c : Char) : Bool :=
  c = ',' || c = '(' || c = ')' || c = '[' || c = ']' || c = '"'

namespace Term

/-! ## Writing -/

mutual

def chars : Term → List Char
  | word text => text.toList
  | quoted text => '"' :: (text.toList ++ ['"'])
  | node name parts => name.toList ++ '(' :: (charsAll parts ++ [')'])
  | list items => '[' :: (charsAll items ++ [']'])

/-- Terms with a comma and a space between them. -/
def charsAll : List Term → List Char
  | [] => []
  | [t] => t.chars
  | t :: u :: rest => t.chars ++ ',' :: ' ' :: charsAll (u :: rest)

end

theorem node_append (name : String) (parts : List Term) (r : List Char) :
    (node name parts).chars ++ r = name.toList ++ '(' :: (charsAll parts ++ ')' :: r) := by
  simp [chars]

theorem list_append (items : List Term) (r : List Char) :
    (list items).chars ++ r = '[' :: (charsAll items ++ ']' :: r) := by
  simp [chars]

/-- At least one character, and no mark. -/
structure IsWord (text : String) : Prop where
  ne_nil : text.toList ≠ []
  not_mark : ∀ c ∈ text.toList, isMark c = false

/-- The words of the term are words, and the quoted texts have no quotes in them. -/
inductive Clear : Term → Prop where
  | word {text} : IsWord text → Clear (.word text)
  | quoted {text : String} : '"' ∉ text.toList → Clear (.quoted text)
  | node {name parts} : IsWord name → (∀ t ∈ parts, Clear t) → Clear (.node name parts)
  | list {items} : (∀ t ∈ items, Clear t) → Clear (.list items)

/-! ## Where a term ends -/

/-- The end of a text or what can follow a term in one: a comma or a closing bracket. -/
def Ends (rest : List Char) : Prop :=
  ∀ c ∈ rest.head?, c = ',' ∨ c = ')' ∨ c = ']'

theorem ends_close {close : Char} (h : close = ')' ∨ close = ']') (r : List Char) :
    Ends (close :: r) := by
  intro c hc
  cases hc
  exact .inr h

theorem Ends.isMark {rest : List Char} (h : Ends rest) : ∀ c ∈ rest.head?, isMark c = true := by
  intro c hc
  rcases h c hc with rfl | rfl | rfl <;> rfl

/-- A word ends at the next mark. -/
theorem IsWord.append_inj {s s' : String} (hs : IsWord s) (hs' : IsWord s') {r r' : List Char}
    (hr : ∀ c ∈ r.head?, Term.isMark c = true) (hr' : ∀ c ∈ r'.head?, Term.isMark c = true)
    (h : s.toList ++ r = s'.toList ++ r') : s = s' ∧ r = r' := by
  rw [← String.toList_inj]
  refine append_inj_of_stop (p := fun c => !Term.isMark c) ?_ ?_ ?_ ?_ h <;> intro c hc
  · rw [hs.not_mark c hc, Bool.not_false]
  · rw [hs'.not_mark c hc, Bool.not_false]
  · rw [hr c hc, Bool.not_true]
  · rw [hr' c hc, Bool.not_true]

/-- A text that begins with a word does not begin with a mark. -/
theorem IsWord.append_ne_cons {name : String} (h : IsWord name) {c : Char}
    (hc : Term.isMark c = true) (r s : List Char) : name.toList ++ r ≠ c :: s := by
  obtain ⟨d, rest, hd⟩ := List.exists_cons_of_ne_nil h.ne_nil
  rw [hd]
  intro heq
  have hmark := h.not_mark d (hd ▸ List.mem_cons_self)
  rw [(List.cons.inj heq).1, hc] at hmark
  cases hmark

/-- A quoted text ends at the next quote. -/
theorem quoted_append_inj {s s' : String} (hs : '"' ∉ s.toList) (hs' : '"' ∉ s'.toList)
    {r r' : List Char} (h : s.toList ++ '"' :: r = s'.toList ++ '"' :: r') : s = s' ∧ r = r' := by
  have hbody : ∀ {t : String}, '"' ∉ t.toList → ∀ c ∈ t.toList, (c != '"') = true :=
    fun ht c hc => bne_iff_ne.2 fun hquote => ht (hquote ▸ hc)
  obtain ⟨htext, hrest⟩ := append_inj_of_stop (hbody hs) (hbody hs') (by simp) (by simp) h
  exact ⟨String.toList_inj.1 htext, (List.cons.inj hrest).2⟩

/-! ## Terms can be told apart -/

/-- The term is determined by a text that it begins, and so is what follows it. -/
def Cancels (t : Term) : Prop :=
  ∀ {u : Term}, u.Clear → ∀ {r s : List Char}, Ends r → Ends s → t.chars ++ r = u.chars ++ s →
    t = u ∧ r = s

/-- No term begins like something that can follow a term. -/
theorem Clear.not_ends {t : Term} (ht : t.Clear) (rest : List Char) : ¬Ends (t.chars ++ rest) := by
  have hword : ∀ {name : String}, IsWord name → ∀ l, ¬Ends (name.toList ++ l) := by
    intro name hname l h
    obtain ⟨c, l', hc⟩ := List.exists_cons_of_ne_nil hname.ne_nil
    rw [hc] at h
    exact hname.append_ne_cons (h.isMark c rfl) l (l' ++ l) (by rw [hc]; rfl)
  cases ht with
  | word h => exact hword h rest
  | quoted =>
      intro h
      rcases h '"' rfl with h | h | h <;> cases h
  | node h =>
      rw [node_append]
      exact hword h _
  | list =>
      intro h
      rcases h '[' rfl with h | h | h <;> cases h

/-- After the first of some terms stands the end or a comma. -/
theorem exists_charsAll_cons (t : Term) (ts : List Term) {close : Char}
    (hclose : close = ')' ∨ close = ']') (r : List Char) :
    ∃ rest, charsAll (t :: ts) ++ close :: r = t.chars ++ rest ∧ Ends rest ∧
      rest = if ts = [] then close :: r else ',' :: ' ' :: (charsAll ts ++ close :: r) := by
  refine ⟨_, ?_, ?_, rfl⟩
  · cases ts with
    | nil => simp [charsAll]
    | cons u ts => simp [charsAll]
  · cases ts with
    | nil => exact ends_close hclose r
    | cons u ts =>
        intro c hc
        cases hc
        exact .inl rfl

theorem charsAll_append_inj {ts us : List Term} (hts : ∀ t ∈ ts, t.Clear ∧ t.Cancels)
    (hus : ∀ u ∈ us, u.Clear) {close : Char} (hclose : close = ')' ∨ close = ']')
    {r s : List Char} (h : charsAll ts ++ close :: r = charsAll us ++ close :: s) :
    ts = us ∧ r = s := by
  -- the first terms cancel, and what stands after them says whether more terms follow
  induction ts generalizing us with
  | nil =>
      cases us with
      | nil => exact ⟨rfl, (List.cons.inj h).2⟩
      | cons u us =>
          obtain ⟨rest, hu, -, -⟩ := exists_charsAll_cons u us hclose s
          rw [hu] at h
          exact absurd (h ▸ ends_close hclose r) ((hus u List.mem_cons_self).not_ends rest)
  | cons t ts ih =>
      obtain ⟨ht, hcancels⟩ := hts t List.mem_cons_self
      obtain ⟨rest, hrest, hends₁, htail⟩ := exists_charsAll_cons t ts hclose r
      rw [hrest] at h
      cases us with
      | nil => exact absurd (h ▸ ends_close hclose s) (ht.not_ends rest)
      | cons u us =>
          obtain ⟨rest', hrest', hends₂, htail'⟩ := exists_charsAll_cons u us hclose s
          rw [hrest'] at h
          obtain ⟨rfl, rfl⟩ := hcancels (hus u List.mem_cons_self) hends₁ hends₂ h
          rw [htail] at htail'
          have hcomma : ∀ l l', close :: l ≠ ',' :: l' := by
            rintro l l' heq
            rcases hclose with rfl | rfl <;> cases heq
          by_cases hnil : ts = [] <;> by_cases hnil' : us = []
          · rw [if_pos hnil, if_pos hnil'] at htail'
            exact ⟨by rw [hnil, hnil'], (List.cons.inj htail').2⟩
          · rw [if_pos hnil, if_neg hnil'] at htail'
            exact absurd htail' (hcomma _ _)
          · rw [if_neg hnil, if_pos hnil'] at htail'
            exact absurd htail'.symm (hcomma _ _)
          · rw [if_neg hnil, if_neg hnil'] at htail'
            obtain ⟨rfl, hrs⟩ := ih (fun t ht => hts t (List.mem_cons_of_mem _ ht))
              (fun u hu => hus u (List.mem_cons_of_mem _ hu))
              (List.cons.inj (List.cons.inj htail').2).2
            exact ⟨rfl, hrs⟩

/-! A word is a node without parts as far as its text goes; what follows it tells the two apart. The
other terms show by their first character what they are. -/

theorem cancels_word {text : String} (hw : IsWord text) : (word text).Cancels := by
  intro u hu r s hr hs h
  cases hu with
  | word hw' =>
      obtain ⟨rfl, rfl⟩ := hw.append_inj hw' hr.isMark hs.isMark h
      exact ⟨rfl, rfl⟩
  | quoted => exact absurd h (hw.append_ne_cons rfl _ _)
  | node hname =>
      rw [node_append] at h
      obtain ⟨-, rfl⟩ := hw.append_inj hname hr.isMark (by simp [isMark]) h
      rcases hr '(' rfl with h | h | h <;> cases h
  | list => exact absurd h (hw.append_ne_cons rfl _ _)

theorem cancels_quoted {text : String} (hquote : '"' ∉ text.toList) : (quoted text).Cancels := by
  intro u hu r s hr hs h
  cases hu with
  | word hw => exact absurd h.symm (hw.append_ne_cons rfl _ _)
  | quoted hquote' =>
      simp only [chars, List.cons_append, List.append_assoc, List.cons.injEq, true_and] at h
      obtain ⟨rfl, rfl⟩ := quoted_append_inj hquote hquote' h
      exact ⟨rfl, rfl⟩
  | node hname =>
      rw [node_append] at h
      exact absurd h.symm (hname.append_ne_cons rfl _ _)
  | list => cases (List.cons.inj h).1

theorem cancels_node {name : String} {parts : List Term} (hname : IsWord name)
    (hparts : ∀ t ∈ parts, t.Clear ∧ t.Cancels) : (node name parts).Cancels := by
  intro u hu r s hr hs h
  rw [node_append] at h
  cases hu with
  | word hw =>
      obtain ⟨-, rfl⟩ := hname.append_inj hw (by simp [isMark]) hs.isMark h
      rcases hs '(' rfl with h | h | h <;> cases h
  | quoted => exact absurd h (hname.append_ne_cons rfl _ _)
  | node hname' hparts' =>
      rw [node_append] at h
      obtain ⟨rfl, hrest⟩ := hname.append_inj hname' (by simp [isMark]) (by simp [isMark]) h
      obtain ⟨rfl, rfl⟩ := charsAll_append_inj hparts hparts' (.inl rfl) (List.cons.inj hrest).2
      exact ⟨rfl, rfl⟩
  | list => exact absurd h (hname.append_ne_cons rfl _ _)

theorem cancels_list {items : List Term} (hitems : ∀ t ∈ items, t.Clear ∧ t.Cancels) :
    (list items).Cancels := by
  intro u hu r s hr hs h
  rw [list_append] at h
  cases hu with
  | word hw => exact absurd h.symm (hw.append_ne_cons rfl _ _)
  | quoted => cases (List.cons.inj h).1
  | node hname =>
      rw [node_append] at h
      exact absurd h.symm (hname.append_ne_cons rfl _ _)
  | list hitems' =>
      rw [list_append] at h
      obtain ⟨rfl, rfl⟩ := charsAll_append_inj hitems hitems' (.inr rfl) (List.cons.inj h).2
      exact ⟨rfl, rfl⟩

/-- A term is determined by a text that it begins, with the place where it ends in the text. -/
theorem Clear.cancels {t : Term} (ht : t.Clear) : t.Cancels := by
  induction ht with
  | word hw => exact cancels_word hw
  | quoted hquote => exact cancels_quoted hquote
  | node hname hparts ih => exact cancels_node hname fun t ht => ⟨hparts t ht, ih t ht⟩
  | list hitems ih => exact cancels_list fun t ht => ⟨hitems t ht, ih t ht⟩

theorem chars_injective {t u : Term} (ht : t.Clear) (hu : u.Clear) (h : t.chars = u.chars) :
    t = u := by
  have hends : Ends [] := fun c hc => by cases hc
  rw [← List.append_nil t.chars, ← List.append_nil u.chars] at h
  exact (ht.cancels hu hends hends h).1

end Term

end IndentScript
