import PluralForms.Session
import PluralForms.Proofs.HeaderParts

/-! Headers as lines of a session. A line loses the blanks at its ends before its lines are joined,
so a backslash at its end may lose the line feed behind it, and then it stays in the expression. The
first word of a header is no command, and with the word `plural` in it a header is taken for one. -/

namespace PluralForms

namespace Header

open Text (Blanks isBlank)

variable {text front back : List Char} {header : Header} {c : Char}

/-! ### Lines and the blanks around them -/

theorem joinLines_sublist (text : List Char) : (joinLines text).Sublist text := by
  induction text using joinLines.induct with
  | case1 rest ih => exact (ih.cons _).cons _
  | case2 c rest hcut ih =>
    rw [joinLines]
    · exact ih.cons_cons c
    · exact hcut
  | case3 => exact .slnil

/-- The parts of a text are joined apart if no continuation runs from the first to the second. -/
theorem joinLines_append (h : front.getLast? ≠ some '\\' ∨ back.head? ≠ some '\n') :
    joinLines (front ++ back) = joinLines front ++ joinLines back := by
  induction front using joinLines.induct with
  | case1 rest ih =>
    refine ih (h.imp_left fun hlast hrest => hlast ?_)
    rw [List.getLast?_cons, List.getLast?_cons, hrest]
    rfl
  | case2 c rest hcut ih =>
    have hrest : rest.getLast? ≠ some '\\' ∨ back.head? ≠ some '\n' := by
      refine h.imp_left fun hlast hrest => hlast ?_
      rw [List.getLast?_cons, hrest]
      rfl
    rw [List.cons_append, joinLines, ih hrest, joinLines, List.cons_append]
    · exact hcut
    · intro behind hc hbehind
      cases rest with
      | nil =>
        subst hc
        rw [List.nil_append] at hbehind
        simp [hbehind] at h
      | cons d rest =>
        obtain ⟨rfl, -⟩ := List.cons.inj hbehind
        exact hcut rest hc rfl
  | case3 => rfl

/-- A line that is continued between two parts of a text is joined. -/
theorem joinLines_continued (front back : List Char) :
    joinLines (front ++ '\\' :: '\n' :: back) = joinLines front ++ joinLines back := by
  rw [joinLines_append (.inr (by simp)), joinLines]

/-- Blanks in front of a text stay before it. -/
theorem joinLines_blanks_append (blanks : Blanks) (text : List Char) :
    joinLines (blanks.val ++ text) = blanks.val ++ joinLines text := by
  have hback : ∀ c ∈ blanks.val, c ≠ '\\' := by
    rintro c hc rfl
    exact absurd (blanks.forall_isBlank _ hc) (by decide)
  have hlast : blanks.val.getLast? ≠ some '\\' := fun hlast =>
    hback _ (List.mem_of_getLast? hlast) rfl
  rw [joinLines_append (.inl hlast), (Continued.refl _).joinLines_eq hback]

theorem joinLines_blanks (blanks : Blanks) : joinLines blanks.val = blanks.val := by
  have happend := joinLines_blanks_append blanks []
  rwa [joinLines, List.append_nil] at happend

/-- A last backslash stays, with the blanks before it. -/
theorem exists_lowered_backslash (front : List Char) :
    ∃ blanks : Blanks, lowered (front ++ ['\\']) = lowered front ++ (blanks.val ++ ['\\']) := by
  have hback : isBlank '\\' = false := by decide
  have hjoin : joinLines (front ++ ['\\']) = joinLines front ++ ['\\'] :=
    joinLines_append (.inr (by decide))
  obtain ⟨blanks, hblanks⟩ := Text.exists_append_trimEnd (Text.trimStart (joinLines front))
  refine ⟨blanks, ?_⟩
  rw [lowered, hjoin, Text.trim, Text.trimStart_append_cons hback, Text.trimEnd_append_cons hback,
    hblanks, List.append_assoc]
  exact Text.lowercase_append_backslash _ blanks

theorem getLast?_lowered (h : text.getLast? = some '\\') :
    (lowered text).getLast? = some '\\' := by
  obtain ⟨front, rfl⟩ := List.getLast?_eq_some_iff.mp h
  obtain ⟨blanks, hblanks⟩ := exists_lowered_backslash front
  rw [hblanks, ← List.append_assoc, List.getLast?_concat]

/-- Without the blanks around a text nothing is lost of it. A backslash is left at its end if the
line feed is missing behind it. -/
theorem exists_lowered_trim (text : List Char) :
    ∃ more, lowered (Text.trim text) = lowered text ++ more ∧
      ((Text.trim text).getLast? ≠ some '\\' → more = []) := by
  obtain ⟨front, back, htext⟩ := Text.exists_append_trim text
  generalize Text.trim text = line at htext ⊢
  subst htext
  by_cases hcut : line.getLast? = some '\\' ∧ back.val.head? = some '\n'
  -- The text goes on behind the backslash, and it is joined there; the line ends with it.
  · obtain ⟨hlast, hhead⟩ := hcut
    obtain ⟨init, rfl⟩ := List.getLast?_eq_some_iff.mp hlast
    obtain ⟨behind, hbehind⟩ := back.exists_of_head? hhead
    obtain ⟨blanks, hlowered⟩ := exists_lowered_backslash init
    have htext : front.val ++ (init ++ ['\\']) ++ back.val =
        (front.val ++ init) ++ '\\' :: '\n' :: behind.val := by
      simp [hbehind]
    refine ⟨blanks.val ++ ['\\'], ?_, fun hnot => absurd hlast hnot⟩
    rw [hlowered, htext, lowered, lowered, joinLines_continued, joinLines_blanks_append,
      joinLines_blanks, Text.trim_blanks]
  -- Otherwise the blanks at both ends are those of the joined text.
  · refine ⟨[], ?_, fun _ => rfl⟩
    rw [List.append_nil, lowered, lowered, List.append_assoc, joinLines_blanks_append,
      joinLines_append (Decidable.not_and_iff_or_not.mp hcut), joinLines_blanks,
      ← List.append_assoc, Text.trim_blanks]

/-- A header is read from its line with the same number of plural forms. If the line ends in a
backslash then so does the expression, and otherwise the header is the same. -/
theorem parse_trim (h : parse text = .ok header) :
    ((Text.trim text).getLast? ≠ some '\\' → parse (Text.trim text) = .ok header) ∧
      ((Text.trim text).getLast? = some '\\' → ∃ expression,
        parse (Text.trim text) = .ok ⟨header.nplurals, expression⟩ ∧
          expression.getLast? = some '\\') := by
  obtain ⟨parts, htext, hdenotes⟩ := parse_eq_ok_iff.mp h
  obtain ⟨more, hline, hmore⟩ := exists_lowered_trim text
  refine ⟨fun hlast => ?_, fun hlast => ?_⟩
  · rw [hmore hlast, List.append_nil, htext] at hline
    exact parse_eq_ok_iff.mpr ⟨parts, hline, hdenotes⟩
  · rw [htext, ← parts.text_append] at hline
    refine ⟨(parts.append more).expression, ?_, ?_⟩
    · exact parse_eq_ok_iff.mpr ⟨parts.append more, hline, parts.denotes_append hdenotes more⟩
    · exact (parts.append more).getLast?_expression (hline ▸ getLast?_lowered hlast)

/-- The semicolon after the count is in the text. -/
theorem semicolon_mem (h : parse text = .ok header) : ';' ∈ Text.trim text := by
  obtain ⟨parts, htext, -⟩ := parse_eq_ok_iff.mp h
  obtain ⟨more, hline, -⟩ := exists_lowered_trim text
  have hmem : ';' ∈ lowered (Text.trim text) :=
    hline ▸ List.mem_append_left more (htext ▸ parts.semicolon_mem_text)
  exact (joinLines_sublist _).mem (Text.mem_of_mem_trim (Text.semicolon_of_lowerAfter [] hmem))

/-- A header starts with a backslash, a character past ASCII, or the first letter of a name. -/
theorem first_of_parse {rest : List Char} (h : parse text = .ok header)
    (hline : Text.trim text = c :: rest) :
    c = '\\' ∨ 128 ≤ c.toNat ∨ c.toLower = 'p' ∨ c.toLower = 'n' := by
  obtain ⟨parts, htext, -⟩ := parse_eq_ok_iff.mp h
  obtain ⟨more, hlowered, -⟩ := exists_lowered_trim text
  have hblank := Text.isBlank_head_trim hline
  by_cases hback : c = '\\'
  · exact .inl hback
  rcases Nat.lt_or_ge c.toNat 128 with hnarrow | hwide
  · have hjoin : joinLines (c :: rest) = c :: joinLines rest := by
      rw [joinLines]
      exact fun _ hc => absurd hc hback
    have htrim : Text.trim (c :: joinLines rest) = c :: Text.trimEnd (joinLines rest) := by
      rw [Text.trim, Text.trimStart_cons hblank]
      exact Text.trimEnd_append_cons hblank [] _
    have hsigma : c ≠ 'Σ' := by
      rintro rfl
      exact absurd hnarrow (by decide)
    rw [hline, lowered, hjoin, htrim, Text.lowercase, Text.lowerAfter, if_neg hsigma,
      Text.lowerChar, if_pos hnarrow, htext] at hlowered
    have hfirst := congrArg List.head? hlowered
    rw [List.singleton_append, List.head?_cons, List.head?_append] at hfirst
    refine .inr (.inr (parts.head?_text.imp (fun hp => ?_) (fun hn => ?_)))
    · rw [hp] at hfirst
      exact Option.some.inj hfirst
    · rw [hn] at hfirst
      exact Option.some.inj hfirst
  · exact .inr (.inl hwide)

end Header

namespace Session

variable {text part line rest : List Char} {c : Char} {header : Header}

/-! ### First characters -/

/-- No spelled-out command starts with the character, and no count. -/
def isFree (c : Char) : Bool :=
  c != ':' && c != 'e' && c != 'q' && c != '-' && c != ',' && !c.isDigit

theorem isFree_of_le (h : 128 ≤ c.toNat) : isFree c = true := by
  have hne {d : Char} (hd : d.toNat < 128) : (c != d) = true := by
    rw [bne_iff_ne]
    rintro rfl
    omega
  have hdigit : c.isDigit = false := by
    rw [← Bool.not_eq_true, Char.isDigit_iff_toNat]
    have : '9'.toNat = 57 := rfl
    omega
  simp only [isFree, hne (by decide : ':'.toNat < 128), hne (by decide : 'e'.toNat < 128),
    hne (by decide : 'q'.toNat < 128), hne (by decide : '-'.toNat < 128),
    hne (by decide : ','.toNat < 128), hdigit, Bool.and_self, Bool.not_false]

/-- A header starts neither as a command nor as a count. -/
theorem isFree_of_parse (h : Header.parse text = .ok header) (hline : Text.trim text = c :: rest) :
    isFree c = true := by
  rcases Header.first_of_parse h hline with rfl | hwide | hfirst
  · decide
  · exact isFree_of_le hwide
  · refine Text.toLower_rel (R := fun c lower => lower = 'p' ∨ lower = 'n' → isFree c = true)
      (by decide) ?_ c hfirst
    rintro c (rfl | rfl) <;> decide

/-! ### The meaning of a line -/

theorem holds_iff : holds part text = true ↔ part <:+: text := by
  induction text with
  | nil => simp [holds]
  | cons c rest ih =>
    rw [holds, Bool.or_eq_true, ih, List.isPrefixOf_iff_prefix, List.infix_cons_iff]

/-- The first words that are told apart. -/
def spelled : List String :=
  ["", ":quit", ":q", "exit", "quit", ":help", ":h", ":header", ":range", ":strategy", ":disasm"]

theorem isFree_of_spelled {name : String} (hname : name ∈ spelled)
    (hc : name.toList.head? = some c) : isFree c = false := by
  have hall : (spelled.all fun name => name.toList.head?.all fun c => !isFree c) = true := by
    decide
  have hhead := List.all_eq_true.mp hall name hname
  rw [hc] at hhead
  simpa using hhead

/-- A line whose first character starts no command and no count is a header if it holds the word
`plural`, and otherwise an expression. -/
theorem ofLine_of_isFree (hline : Text.trim line = c :: rest) (hfree : isFree c = true) :
    Request.ofLine line =
      if holds "plural".toList (Text.trim line) then .header (Text.trim line)
      else .expression (Text.trim line) := by
  have hblank := Text.isBlank_head_trim hline
  have hcommand : (splitCommand (Text.trim line)).1.head? = some c := by
    rw [splitCommand, hline, List.takeWhile_cons_of_pos (by simp [hblank])]
    rfl
  have hcounts : looksLikeCounts (Text.trim line) = false := by
    simp only [isFree, Bool.and_eq_true, bne_iff_ne, Bool.not_eq_true'] at hfree
    rw [looksLikeCounts, hline, List.all_cons]
    simp [hfree, hblank]
  rw [Request.ofLine]
  dsimp only
  generalize splitCommand (Text.trim line) = parts at hcommand
  have hne {name : String} (hname : String.ofList parts.1 = name) :
      name.toList.head? = some c := by
    rw [← hname, String.toList_ofList, hcommand]
  split
  case h_12 =>
    have hcolon : parts.1.head? ≠ some ':' := by
      rw [hcommand]
      rintro ⟨⟩
      cases hfree
    rw [if_neg hcolon, hcounts]
    rfl
  all_goals
    next heq =>
      have hspelled := isFree_of_spelled (by simp [spelled]) (hne heq)
      cases hspelled.symm.trans hfree

end Session

end PluralForms
