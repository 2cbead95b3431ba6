import PluralForms.Proofs.Caching
import PluralForms.Proofs.HeaderLines
import PluralForms.Proofs.Registry
import PluralForms.Proofs.Session

/-! The headers that an engine accepts, as lines of its session. The session loads a header in which
the word `plural` stands in small letters, if it does not end in a backslash. Without the word it is
read as an expression, and with the backslash so is its expression, and no formula is made. -/

namespace PluralForms

/-! ### Characters of no token -/

theorem Text.ne_of_tokens? {text : List Char} {tokens : List Token} {c : Char}
    (h : tokens? text = some tokens) (hc : c ∈ text) : c ≠ ';' ∧ c ≠ '\\' := by
  rcases mem_of_tokens? h hc with hblank | hdigit | hsign
  · constructor <;> rintro rfl <;> exact absurd hblank (by decide)
  · constructor <;> rintro rfl <;> exact absurd hdigit (by decide)
  · constructor <;> rintro rfl <;> exact absurd hsign (by decide)

theorem Family.lookup?_of_backslash {expression : List Char} (h : '\\' ∈ expression) :
    lookup? expression = none := by
  rw [Option.eq_none_iff_forall_ne_some]
  intro family hfamily
  obtain ⟨selection, -, hparse⟩ := parse_of_lookup? hfamily
  obtain ⟨tokens, -, htokens, -⟩ := Selection.derives_of_parse hparse
  have hkey : '\\' ∈ Header.registryKey expression := List.mem_filter.mpr ⟨h, by decide⟩
  exact (Text.ne_of_tokens? htokens hkey).2 rfl

namespace Engine

variable {config : Config} {text : String} {plural : Plural}
  {expression : List Char} {header : Header}

theorem exists_error_ofExpression (config : Config) (arena : Native.Arena)
    (h : ';' ∈ expression ∨ '\\' ∈ expression) :
    ∃ error, (ofExpression config arena expression).outcome = .error error := by
  cases houtcome : (ofExpression config arena expression).outcome with
  | error error => exact ⟨error, rfl⟩
  | ok formula =>
    obtain ⟨tokens, -, htokens, -⟩ := derives_of_ofExpression houtcome
    rcases h with h | h
    · exact absurd rfl (Text.ne_of_tokens? htokens h).1
    · exact absurd rfl (Text.ne_of_tokens? htokens h).2

/-! ### What is made of the line of a header -/

theorem exists_parse_of_made (h : made config text = .ok plural) :
    ∃ header, Header.parse text.toList = .ok header ∧ plural.nplurals = header.nplurals := by
  obtain ⟨header, hparse, hnplurals, -⟩ := ofHeader_eq_ok h
  exact ⟨header, hparse, hnplurals⟩

theorem made_congr {text' : String} (h : Header.parse text.toList = .ok header)
    (h' : Header.parse text'.toList = .ok header) : made config text' = made config text := by
  rw [made, made]
  delta ofHeader
  rw [h, h']

theorem made_of_one (h : Header.parse text.toList = .ok header) (hone : header.nplurals = 1) :
    made config text = .ok ⟨.constant 0, 1⟩ := by
  rw [made]
  delta ofHeader
  simp only [h, if_pos hone]

theorem exists_error_made (h : Header.parse text.toList = .ok header) (hone : header.nplurals ≠ 1)
    (hback : '\\' ∈ header.expression) : ∃ error, made config text = .error error := by
  obtain ⟨error, herror⟩ := exists_error_ofExpression config {} (.inr hback)
  refine ⟨error, ?_⟩
  rw [made]
  delta ofHeader
  rw [h]
  simp only [if_neg hone, Family.lookup?_of_backslash hback, ite_self, herror, Except.map]

/-- Of the line of a header the same is made, except if there are several forms and the line ends in
a backslash. -/
theorem made_trim (h : made config text = .ok plural) :
    let line := Text.trim text.toList
    (plural.nplurals = 1 ∨ line.getLast? ≠ some '\\' →
        made config (String.ofList line) = .ok plural) ∧
      (¬(plural.nplurals = 1 ∨ line.getLast? ≠ some '\\') →
        ∃ error, made config (String.ofList line) = .error error) := by
  intro line
  have hlist : (String.ofList line).toList = line := String.toList_ofList
  obtain ⟨header, hparse, hnplurals⟩ := exists_parse_of_made h
  obtain ⟨hplain, hback⟩ := Header.parse_trim hparse
  by_cases hlast : line.getLast? = some '\\'
  · obtain ⟨expression, hline, hend⟩ := hback hlast
    have hline : Header.parse (String.ofList line).toList =
        .ok ⟨header.nplurals, expression⟩ := hlist.symm ▸ hline
    refine ⟨fun hone => ?_, fun hseveral => ?_⟩
    · have hone : header.nplurals = 1 := hnplurals ▸ hone.resolve_right (not_not_intro hlast)
      rw [← h, made_of_one hline hone, made_of_one hparse hone]
    · rw [not_or, hnplurals] at hseveral
      exact exists_error_made hline hseveral.1 (List.mem_of_getLast? hend)
  · refine ⟨fun _ => ?_, fun hseveral => absurd (.inr hlast) hseveral⟩
    rw [← h]
    exact made_congr hparse (hlist.symm ▸ hplain hlast)

end Engine

/-! ### Sessions -/

namespace Session

variable {session : Session} {text : List Char} {plural : Plural}

theorem answer_header_of_ok
    (h : (session.engine.make (String.ofList text)).answer = .ok plural) :
    (session.answer (.header text)).outcome =
        .ok (.output s!"nplurals={plural.nplurals}, strategy={plural.formula.strategy}") ∧
      (session.answer (.header text)).session.current =
        some ⟨String.ofList text, plural.formula, some plural.nplurals⟩ := by
  simp only [answer, loadHeader, h, and_self]

theorem answer_header_of_error {error : FormulaError}
    (h : (session.engine.make (String.ofList text)).answer = .error error) :
    (session.answer (.header text)).outcome = .error (.formula error) ∧
      (session.answer (.header text)).session.current = session.current := by
  simp only [answer, loadHeader, h, and_self]

theorem answer_expression_of_semicolon (session : Session) (h : ';' ∈ text) :
    (∃ error, (session.answer (.expression text)).outcome = .error error) ∧
      (session.answer (.expression text)).session.current = session.current := by
  have hmem : ';' ∈ (String.ofList text).toList := String.toList_ofList.symm ▸ h
  obtain ⟨error, herror⟩ :=
    Engine.exists_error_ofExpression session.engine.config session.engine.arena (.inl hmem)
  simp only [answer, loadExpression, Engine.compileExpression, herror]
  exact ⟨⟨_, rfl⟩, trivial⟩

/-- After any lines the engine makes what it would make at first. -/
theorem answer_make_after (config : Config) (environment : Environment) (lines : List String)
    (text : String) :
    (((Session.mk (.new config environment) none).after lines).engine.make text).answer =
      Engine.made config text := by
  obtain ⟨calls, hcalls⟩ := exists_calls_after ⟨.new config environment, none⟩ lines
  rw [hcalls, Engine.answer_make_foldl]

/-- After any lines, a text that the engine accepts is loaded with its formula if the word `plural`
stands in it in small letters and, unless there is but one plural form, it does not end in a
backslash and blanks. Otherwise it is refused, and the formula stays. -/
theorem handle_accepted (config : Config) (environment : Environment) (lines : List String)
    (text : String) (plural : Plural) :
    let session := (Session.mk (.new config environment) none).after lines
    let line := Text.trim text.toList
    let loadable := "plural".toList <:+: line ∧
      (plural.nplurals = 1 ∨ line.getLast? ≠ some '\\')
    let reply := session.handle text
    (session.engine.make text).answer = .ok plural →
      (loadable →
        reply.outcome =
            .ok (.output s!"nplurals={plural.nplurals}, strategy={plural.formula.strategy}") ∧
          reply.session.current =
            some ⟨String.ofList line, plural.formula, some plural.nplurals⟩) ∧
      (¬loadable →
        (∃ error, reply.outcome = .error error) ∧ reply.session.current = session.current) := by
  intro session line loadable reply h
  rw [answer_make_after] at h
  have hline := answer_make_after config environment lines (String.ofList line)
  obtain ⟨header, hparse, -⟩ := Engine.exists_parse_of_made h
  obtain ⟨hsame, hrefused⟩ := Engine.made_trim h
  have hsemicolon : ';' ∈ line := Header.semicolon_mem hparse
  obtain ⟨c, rest, htrim⟩ := List.exists_cons_of_ne_nil (List.ne_nil_of_mem hsemicolon)
  have hrequest := ofLine_of_isFree htrim (isFree_of_parse hparse htrim)
  have hreply : reply = session.answer (.ofLine text.toList) := rfl
  rw [hreply, hrequest]
  by_cases hholds : holds "plural".toList line = true
  · have hword : "plural".toList <:+: line := holds_iff.mp hholds
    rw [if_pos hholds]
    refine ⟨fun hload => ?_, fun hnot => ?_⟩
    · exact answer_header_of_ok (hline.trans (hsame hload.2))
    · obtain ⟨error, herror⟩ := hrefused fun hforms => hnot ⟨hword, hforms⟩
      obtain ⟨houtcome, hcurrent⟩ := answer_header_of_error (hline.trans herror)
      exact ⟨⟨_, houtcome⟩, hcurrent⟩
  · rw [if_neg hholds]
    refine ⟨fun hload => absurd (holds_iff.mpr hload.1) hholds, fun _ => ?_⟩
    exact session.answer_expression_of_semicolon hsemicolon

theorem handle_accepted_padded :
    let text := "\u2003NPLURALS=2; plural=N != 1;\n"
    let session := (Session.mk (.new {} fun _ => none) none).after ["5", "n > 1"]
    ∃ plural, (session.engine.make text).answer = .ok plural ∧
      "plural".toList <:+: Text.trim text.toList ∧ (Text.trim text.toList).getLast? ≠ some '\\' ∧
      (session.handle text).session.current =
        some ⟨"NPLURALS=2; plural=N != 1;", plural.formula, some plural.nplurals⟩ := by
  intro text session
  have hok : (session.engine.make text).answer.isOk = true := by decide +kernel
  have htrim : Text.trim text.toList = "NPLURALS=2; plural=N != 1;".toList := by decide +kernel
  have hword : "plural".toList <:+: Text.trim text.toList := by rw [htrim]; decide
  have hlast : (Text.trim text.toList).getLast? ≠ some '\\' := by rw [htrim]; decide
  cases hanswer : (session.engine.make text).answer with
  | error error => rw [hanswer] at hok; cases hok
  | ok plural =>
    have hloaded := (handle_accepted {} (fun _ => none) ["5", "n > 1"] text plural hanswer).1
    obtain ⟨-, hcurrent⟩ := hloaded ⟨hword, .inr hlast⟩
    rw [htrim, String.ofList_toList] at hcurrent
    refine ⟨plural, rfl, hword, hlast, ?_⟩
    dsimp only [session]
    exact hcurrent

/-- A header in capitals is made by the engine and refused by its session. -/
theorem capitals_refused :
    let session : Session := ⟨.new {} fun _ => none, none⟩
    let text := "NPLURALS=2; PLURAL=N != 1;"
    (session.engine.make text).answer.isOk = true ∧ (session.handle text).outcome.isOk = false := by
  decide +kernel

end Session

end PluralForms
