import PluralForms.Text.Lowercase
import PluralForms.Proofs.Decimal

/-! Blanks at the ends of texts, and the lower case of texts of ASCII characters and blanks, which
is that of each character. -/

namespace PluralForms.Text

variable {text : List Char} {c mark : Char}

/-! ### Blanks at the ends -/

/-- A text of blanks. -/
def Blanks := { text : List Char // text.all isBlank = true }

theorem Blanks.forall_isBlank (blanks : Blanks) : ∀ c ∈ blanks.val, isBlank c = true :=
  List.all_eq_true.mp blanks.2

def Blanks.append (front back : Blanks) : Blanks :=
  ⟨front.val ++ back.val, by rw [List.all_append, front.2, back.2]; rfl⟩

theorem Blanks.exists_of_head? (blanks : Blanks) (h : blanks.val.head? = some c) :
    ∃ others : Blanks, blanks.val = c :: others.val := by
  obtain ⟨others, heq⟩ := List.head?_eq_some_iff.mp h
  have hall := blanks.2
  rw [heq, List.all_cons, Bool.and_eq_true] at hall
  exact ⟨⟨others, hall.2⟩, heq⟩

theorem trimStart_append (blanks : Blanks) (text : List Char) :
    trimStart (blanks.val ++ text) = trimStart text :=
  List.dropWhile_append_of_pos blanks.forall_isBlank

theorem trimEnd_append (text : List Char) (blanks : Blanks) :
    trimEnd (text ++ blanks.val) = trimEnd text := by
  rw [trimEnd, List.reverse_append, List.dropWhile_append_of_pos, trimEnd]
  exact fun c hc => blanks.forall_isBlank c (List.mem_reverse.mp hc)

theorem trimStart_cons (h : isBlank c = false) (text : List Char) :
    trimStart (c :: text) = c :: text :=
  List.dropWhile_cons_of_neg (by simp [h])

/-- What stands before a character that is no blank stays. -/
theorem trimEnd_append_cons (h : isBlank c = false) (front back : List Char) :
    trimEnd (front ++ c :: back) = front ++ c :: trimEnd back := by
  have hreverse : (front ++ c :: back).reverse = back.reverse ++ c :: front.reverse := by simp
  rw [trimEnd, hreverse, List.dropWhile_append]
  split
  · next hempty =>
    rw [List.dropWhile_cons_of_neg (by simp [h]), trimEnd, List.isEmpty_iff.mp hempty]
    simp
  · simp [trimEnd]

/-- What stands after a character that is no blank stays. -/
theorem trimStart_append_cons (h : isBlank c = false) (front back : List Char) :
    trimStart (front ++ c :: back) = trimStart front ++ c :: back := by
  rw [trimStart, List.dropWhile_append]
  split
  · next hempty =>
    rw [List.dropWhile_cons_of_neg (by simp [h]), trimStart, List.isEmpty_iff.mp hempty]
    rfl
  · rfl

theorem exists_append_trimEnd (text : List Char) :
    ∃ blanks : Blanks, text = trimEnd text ++ blanks.val := by
  have hall : (text.reverse.takeWhile isBlank).reverse.all isBlank = true := by
    rw [List.all_reverse]
    exact List.all_takeWhile
  refine ⟨⟨_, hall⟩, ?_⟩
  rw [trimEnd, ← List.reverse_append, List.takeWhile_append_dropWhile, List.reverse_reverse]

theorem exists_append_trimStart (text : List Char) :
    ∃ blanks : Blanks, text = blanks.val ++ trimStart text :=
  ⟨⟨text.takeWhile isBlank, List.all_takeWhile⟩, List.takeWhile_append_dropWhile.symm⟩

/-- A text is what is left of it without blanks at its ends, and blanks. -/
theorem exists_append_trim (text : List Char) :
    ∃ front back : Blanks, text = front.val ++ trim text ++ back.val := by
  obtain ⟨front, hfront⟩ := exists_append_trimStart text
  obtain ⟨back, hback⟩ := exists_append_trimEnd (trimStart text)
  refine ⟨front, back, ?_⟩
  rw [trim, List.append_assoc, ← hback, ← hfront]

theorem isBlank_head_trim {rest : List Char} (h : trim text = c :: rest) : isBlank c = false := by
  obtain ⟨blanks, hblanks⟩ := exists_append_trimEnd (trimStart text)
  rw [← trim, h, List.cons_append, trimStart] at hblanks
  have hhead := List.head?_dropWhile_not isBlank text
  rw [hblanks, List.head?_cons] at hhead
  simpa using hhead

theorem trimEnd_trimEnd (text : List Char) : trimEnd (trimEnd text) = trimEnd text := by
  obtain ⟨blanks, htext⟩ := exists_append_trimEnd text
  conv_rhs => rw [htext, trimEnd_append]

/-- Blanks at both ends are removed with those of the text. -/
theorem trim_blanks (front : Blanks) (text : List Char) (back : Blanks) :
    trim (front.val ++ text ++ back.val) = trim text := by
  rw [List.append_assoc, trim, trimStart_append, trimStart, List.dropWhile_append, trim, trimStart]
  split
  · next hempty =>
    rw [List.isEmpty_iff.mp hempty, List.dropWhile_eq_nil_iff.mpr back.forall_isBlank]
  · exact trimEnd_append _ back

theorem trim_trimEnd (text : List Char) : trim (trimEnd text) = trim text := by
  obtain ⟨blanks, htext⟩ := exists_append_trimEnd text
  conv_rhs => rw [htext]
  exact (trim_blanks ⟨[], rfl⟩ _ blanks).symm

theorem trim_of_forall (h : ∀ c ∈ text, isBlank c = false) : trim text = text := by
  have hdrop {text : List Char} (h : ∀ c ∈ text, isBlank c = false) :
      text.dropWhile isBlank = text :=
    List.dropWhile_eq_self_iff.mpr fun _ => by simp [h _ (List.getElem_mem _)]
  rw [trim, trimStart, hdrop h, trimEnd, hdrop (fun c hc => h c (List.mem_reverse.mp hc)),
    List.reverse_reverse]

theorem mem_of_mem_trim (h : c ∈ trim text) : c ∈ text := by
  have hend : c ∈ (trimStart text).reverse :=
    (List.dropWhile_suffix _).mem (List.mem_reverse.mp h)
  exact (List.dropWhile_suffix _).mem (List.mem_reverse.mp hend)

theorem getLast?_trim (h : isBlank mark = false) (hlast : (trimEnd text).getLast? = some mark) :
    (trim text).getLast? = some mark := by
  obtain ⟨front, hfront⟩ := List.getLast?_eq_some_iff.mp hlast
  rw [← trim_trimEnd, hfront, trim, trimStart_append_cons h, trimEnd_append_cons h]
  simp [trimEnd]

/-! ### Lower case -/

theorem toLower_of_le (h : 128 ≤ c.toNat) : c.toLower = c := by
  refine dif_neg ?_
  rintro ⟨-, hlast⟩
  have : c.toNat ≤ 'Z'.toNat := hlast
  have : 'Z'.toNat = 90 := rfl
  omega

/-- What relates each ASCII character to its lower case, and each character to itself, relates every
character to its lower case. -/
theorem toLower_rel {R : Char → Char → Prop}
    (hascii : ∀ n < 128, R (Char.ofNat n) (Char.ofNat n).toLower) (hself : ∀ c, R c c) (c : Char) :
    R c c.toLower := by
  rcases Nat.lt_or_ge c.toNat 128 with hnarrow | hwide
  · exact Char.ofNat_toNat c ▸ hascii c.toNat hnarrow
  · exact (toLower_of_le hwide).symm ▸ hself c

theorem toLower_of_isBlank (h : isBlank c = true) : c.toLower = c :=
  toLower_rel (R := fun c lower => isBlank c = true → lower = c) (by decide) (fun _ _ => rfl) c h

theorem Blanks.map_toLower (blanks : Blanks) : blanks.val.map Char.toLower = blanks.val := by
  conv_rhs => rw [← List.map_id blanks.val]
  exact List.map_congr_left fun c hc => toLower_of_isBlank (blanks.forall_isBlank c hc)

theorem toLower_of_isDigit (h : c.isDigit = true) : c.toLower = c :=
  toLower_rel (R := fun c lower => c.isDigit = true → lower = c) (by decide) (fun _ _ => rfl) c h

theorem isBlank_toLower (c : Char) : isBlank c.toLower = isBlank c :=
  toLower_rel (R := fun c lower => isBlank lower = isBlank c) (by decide) (fun _ => rfl) c

/-- No blank stands among the capitals. -/
theorem blank_apart_capitals : ∀ range ∈ blankRanges, ∀ run ∈ capitalRuns,
    run.last < range.1 ∨ range.2 < run.first := by
  decide +kernel

theorem lowerChar_of_isBlank (h : isBlank c = true) : lowerChar c = [c.toLower] := by
  rw [lowerChar]
  split
  · rfl
  · rw [if_neg (by rintro rfl; simp [isBlank, inRanges, blankRanges] at h), toLower_of_isBlank h]
    have hnone : capitalRuns.find? (fun run => run.contains c) = none := by
      obtain ⟨range, hrange, hc⟩ := List.any_eq_true.mp h
      refine List.find?_eq_none.mpr fun run hrun => ?_
      have := blank_apart_capitals range hrange run hrun
      simp only [CapitalRun.contains, Bool.and_eq_true, decide_eq_true_eq] at hc ⊢
      omega
    rw [hnone]

theorem lowerAfter_eq_map (before : List Char)
    (h : ∀ c ∈ text, c.toNat < 128 ∨ isBlank c = true) :
    lowerAfter before text = text.map Char.toLower := by
  induction text generalizing before with
  | nil => rfl
  | cons c rest ih =>
    obtain ⟨hc, hrest⟩ := List.forall_mem_cons.mp h
    have hsigma : c ≠ 'Σ' := by
      rintro rfl
      revert hc
      decide
    have hlower : lowerChar c = [c.toLower] :=
      hc.elim (fun hascii => by rw [lowerChar, if_pos hascii]) lowerChar_of_isBlank
    rw [lowerAfter, if_neg hsigma, hlower, ih _ hrest]
    rfl

/-- A text of ASCII characters and blanks is lowered character by character. -/
theorem lowercase_eq_map (h : ∀ c ∈ text, c.toNat < 128 ∨ isBlank c = true) :
    lowercase text = text.map Char.toLower :=
  lowerAfter_eq_map [] h

/-- No character of the first ranges is one of the second. -/
theorem inRanges_apart {first second : List (Nat × Nat)}
    (h : ∀ range ∈ first, ∀ other ∈ second, range.2 < other.1 ∨ other.2 < range.1)
    (hc : inRanges first c = true) : inRanges second c = false := by
  obtain ⟨range, hrange, hin⟩ := List.any_eq_true.mp hc
  rw [← Bool.not_eq_true]
  intro hother
  obtain ⟨other, hmem, hin'⟩ := List.any_eq_true.mp hother
  have := h range hrange other hmem
  simp only [Bool.and_eq_true, decide_eq_true_eq] at hin hin'
  omega

/-- Neither a letter with case nor a character that is passed over on the way to one. -/
def isUncased (c : Char) : Bool := !inRanges caseIgnorableRanges c && !inRanges casedRanges c

theorem isUncased_of_isBlank (h : isBlank c = true) : isUncased c = true := by
  rw [isUncased, inRanges_apart (by decide +kernel) h, inRanges_apart (by decide +kernel) h]
  rfl

theorem meetsCased_append_cons (h : isUncased c = true) (front back : List Char) :
    meetsCased (front ++ c :: back) = meetsCased front := by
  simp only [isUncased, Bool.and_eq_true, Bool.not_eq_true'] at h
  rw [meetsCased, meetsCased, List.dropWhile_append]
  cases front.dropWhile (inRanges caseIgnorableRanges) with
  | nil =>
    rw [if_pos List.isEmpty_nil, List.dropWhile_cons_of_neg (by simp [h.1])]
    exact h.2
  | cons d rest => rfl

/-- What stands before a character without case is lowered on its own. -/
theorem lowerAfter_append_cons (h : isUncased c = true) (before front back : List Char) :
    lowerAfter before (front ++ c :: back) =
      lowerAfter before front ++ lowerAfter (front.reverse ++ before) (c :: back) := by
  induction front generalizing before with
  | nil => rfl
  | cons d front ih =>
    rw [List.cons_append, lowerAfter, lowerAfter, ih, meetsCased_append_cons h,
      List.reverse_cons, List.append_assoc]
    split <;> simp

/-- Blanks and a backslash at the end stay as they are. -/
theorem lowercase_append_backslash (text : List Char) (blanks : Blanks) :
    lowercase (text ++ (blanks.val ++ ['\\'])) = lowercase text ++ (blanks.val ++ ['\\']) := by
  have hplain : ∀ c ∈ blanks.val ++ ['\\'], c.toNat < 128 ∨ isBlank c = true := by
    intro c hc
    rcases List.mem_append.mp hc with hc | hc
    · exact .inr (blanks.forall_isBlank c hc)
    · exact .inl (List.mem_singleton.mp hc ▸ by decide)
  have hmap : (blanks.val ++ ['\\']).map Char.toLower = blanks.val ++ ['\\'] := by
    rw [List.map_append, blanks.map_toLower]
    rfl
  have huncased : ∀ c ∈ (blanks.val ++ ['\\']).head?, isUncased c = true := by
    intro c hc
    rcases List.mem_append.mp (List.mem_of_mem_head? hc) with hc | hc
    · exact isUncased_of_isBlank (blanks.forall_isBlank c hc)
    · exact List.mem_singleton.mp hc ▸ by decide +kernel
  generalize blanks.val ++ ['\\'] = last at hplain hmap huncased ⊢
  cases last with
  | nil => rw [List.append_nil, List.append_nil]
  | cons c back =>
    rw [lowercase, lowerAfter_append_cons (huncased c rfl), lowerAfter_eq_map _ hplain, hmap]
    rfl

/-- The small letters of the capitals past ASCII come no earlier than those of ASCII. -/
theorem le_first_add_shift : ∀ run ∈ capitalRuns, 97 ≤ run.first + run.shift := by
  decide +kernel

theorem toNat_ofNat (n : Nat) : (Char.ofNat n).toNat = n ∨ (Char.ofNat n).toNat = 0 := by
  rw [Char.ofNat]
  by_cases h : n.isValidChar
  · rw [dif_pos h]
    exact .inl rfl
  · rw [dif_neg h]
    exact .inr rfl

/-- Only a semicolon is lowered to one. -/
theorem semicolon_of_lowerChar (h : ';' ∈ lowerChar c) : c = ';' := by
  rw [lowerChar] at h
  split at h
  · have hlower : c.toLower = ';' := (List.mem_singleton.mp h).symm
    exact toLower_rel (R := fun c lower => lower = ';' → c = ';') (by decide) (fun _ => id) c hlower
  · split at h
    · simp at h
    · split at h
      · next run hrun =>
        have hsmall := le_first_add_shift run (List.mem_of_find?_eq_some hrun)
        have hin := List.find?_some hrun
        simp only [CapitalRun.contains, Bool.and_eq_true, decide_eq_true_eq] at hin
        have hcode := congrArg Char.toNat (List.mem_singleton.mp h)
        have hmark : ';'.toNat = 59 := rfl
        rcases toNat_ofNat (c.toNat + run.shift).toNat with heq | heq <;> omega
      · exact (List.mem_singleton.mp h).symm

theorem semicolon_of_lowerAfter (before : List Char) (h : ';' ∈ lowerAfter before text) :
    ';' ∈ text := by
  induction text generalizing before with
  | nil => exact h
  | cons c rest ih =>
    rw [lowerAfter] at h
    split at h
    · rcases List.mem_cons.mp h with hsigma | h
      · split at hsigma <;> simp at hsigma
      · exact List.mem_cons_of_mem c (ih _ h)
    · rcases List.mem_append.mp h with hc | h
      · exact semicolon_of_lowerChar hc ▸ List.mem_cons_self
      · exact List.mem_cons_of_mem c (ih _ h)

theorem trimStart_map_toLower (text : List Char) :
    trimStart (text.map Char.toLower) = (trimStart text).map Char.toLower := by
  rw [trimStart, List.dropWhile_map, trimStart]
  simp only [Function.comp_def, isBlank_toLower]

theorem trimEnd_map_toLower (text : List Char) :
    trimEnd (text.map Char.toLower) = (trimEnd text).map Char.toLower := by
  rw [trimEnd, ← List.map_reverse, ← trimStart, trimStart_map_toLower, ← List.map_reverse]
  rfl

theorem trim_map_toLower (text : List Char) :
    trim (text.map Char.toLower) = (trim text).map Char.toLower := by
  rw [trim, trimStart_map_toLower, trimEnd_map_toLower, trim]

end PluralForms.Text
