import ComponentMarkup.Proofs.Number.Shortest
import ComponentMarkup.Proofs.Project

/-!
# The report of problems

The report holds the texts of the problems, each ended by a line feed. Their messages hold none, so
a problem takes one line, and one more for each line feed in its path
(`Problem.splitOn_report`). Where no path holds one, the problems are read back from the
lines: a message ends where its words or its quotes do (`IsMessage.append_cancel`), and the place
stands behind the last two colons.
-/

namespace ComponentMarkup

/-! ## Digits -/

theorem isAlphanum_of_mem_toDigits {base n : Nat} {c : Char} (hbase : 1 < base) (hbase' : base ≤ 16)
    (h : c ∈ Nat.toDigits base n) : c.isAlphanum = true := by
  have hdigit : ∀ k < 16, (Nat.digitChar k).isAlphanum = true := by decide
  -- strong induction on the number, since its digits are those of the quotient and one more
  induction n using Nat.strongRecOn with
  | ind n ih =>
      rw [Nat.toDigits_eq_if hbase] at h
      split at h
      · next hlt =>
        rw [List.mem_singleton.1 h]
        exact hdigit n (by omega)
      · next hge =>
        rcases List.mem_append.1 h with h | h
        · exact ih (n / base) (Nat.div_lt_self (by omega) hbase) h
        · rw [List.mem_singleton.1 h]
          have hlt := Nat.mod_lt n (by omega : base > 0)
          exact hdigit (n % base) (by omega)

theorem isAlphanum_of_mem_paddedHex {width n : Nat} {c : Char} (h : c ∈ paddedHex width n) :
    c.isAlphanum = true := by
  rcases List.mem_append.1 h with h | h
  · rw [List.eq_of_mem_replicate h]
    rfl
  · exact isAlphanum_of_mem_toDigits (by decide) (by decide) h

theorem toList_toString (n : Nat) : (toString n).toList = Nat.toDigits 10 n := by
  rw [Nat.toString_eq_repr, Nat.repr_eq_ofList_toDigits, String.toList_ofList]

theorem integerText_eq (n : Int) :
    integerText n =
      if 0 ≤ n then Nat.toDigits 10 n.natAbs else '-' :: Nat.toDigits 10 n.natAbs := by
  rw [integerText, Int.toString_eq_repr, Int.repr_eq_if]
  split
  · next hpos =>
    have hnat : n.toNat = n.natAbs := by omega
    rw [hnat, Nat.repr_eq_ofList_toDigits, String.toList_ofList]
  · next hneg =>
    have hnat : (-n).toNat = n.natAbs := by omega
    rw [hnat, Nat.repr_eq_ofList_toDigits, String.toList_append, String.toList_ofList,
      String.toList_ofList]
    rfl

/-- The characters of an integer are digits and a minus sign. -/
theorem of_mem_integerText {n : Int} {c : Char} (h : c ∈ integerText n) :
    c = '-' ∨ c.isAlphanum = true := by
  have hdigits {c : Char} (h : c ∈ Nat.toDigits 10 n.natAbs) : c.isAlphanum = true :=
    isAlphanum_of_mem_toDigits (by decide) (by decide) h
  rw [integerText_eq] at h
  split at h
  · exact .inr (hdigits h)
  · exact (List.mem_cons.1 h).imp id hdigits

theorem integerText_injective : Function.Injective integerText := by
  -- the sign is no digit, so integers with the same text have the same sign
  have hminus (a b : Nat) : Nat.toDigits 10 a ≠ '-' :: Nat.toDigits 10 b := by
    intro h
    have hmem : '-' ∈ Nat.toDigits 10 a := by
      rw [h]
      exact List.mem_cons_self ..
    cases isAlphanum_of_mem_toDigits (by decide) (by decide) hmem
  have hdigits {a b : Nat} (h : Nat.toDigits 10 a = Nat.toDigits 10 b) : a = b := by
    rw [← digitsValue_toDigits a, h, digitsValue_toDigits]
  intro m n h
  rw [integerText_eq, integerText_eq] at h
  split at h <;> split at h
  · have habs := hdigits h
    omega
  · exact absurd h (hminus _ _)
  · exact absurd h.symm (hminus _ _)
  · have habs := hdigits (List.cons.inj h).2
    omega

/-! ## Quoted text -/

/-- What stands behind a closing quote; an escaped character closes nothing. -/
def behindQuote (quote : Char) (escaped : Bool) : List Char → List Char
  | [] => []
  | c :: cs =>
      if escaped then behindQuote quote false cs
      else if c = quote then cs
      else behindQuote quote (c = '\\') cs

section

variable {quote : Char}

theorem behindQuote_append {cs : List Char} (h : ∀ c ∈ cs, c ≠ quote ∧ c ≠ '\\')
    (rest : List Char) : behindQuote quote false (cs ++ rest) = behindQuote quote false rest := by
  induction cs with
  | nil => rfl
  | cons c cs ih =>
      rw [List.forall_mem_cons] at h
      simp [behindQuote, h.1.1, h.1.2, ih h.2]

/-- Between quotes a character stands as it is, or as a backslash with what it escapes. -/
theorem quotedChar_cases (hquote : quote = '\'' ∨ quote = '"') (c : Char) :
    (quotedChar quote c = [c] ∧ c ≠ quote ∧ c ≠ '\\' ∧ c ≠ '\n') ∨
      ∃ d digits, quotedChar quote c = '\\' :: d :: digits ∧ d ≠ '\n' ∧
        ∀ digit ∈ digits, digit.isAlphanum = true := by
  have hhex {width n : Nat} : ∀ digit ∈ paddedHex width n, digit.isAlphanum = true :=
    fun _ => isAlphanum_of_mem_paddedHex
  unfold quotedChar
  dsimp only
  -- the cases follow the definition: a backslash and one letter, the character itself, or its code
  -- in hexadecimal digits
  by_cases hescaped : c = quote ∨ c = '\\'
  · rw [if_pos hescaped]
    refine .inr ⟨c, [], rfl, ?_, by simp⟩
    rcases hescaped with rfl | rfl
    · rcases hquote with rfl | rfl <;> decide
    · decide
  rw [if_neg hescaped]
  rw [not_or] at hescaped
  by_cases hnewline : c = '\n'
  · rw [if_pos hnewline]
    exact .inr ⟨'n', [], rfl, by decide, by simp⟩
  rw [if_neg hnewline]
  by_cases hreturn : c = '\r'
  · rw [if_pos hreturn]
    exact .inr ⟨'r', [], rfl, by decide, by simp⟩
  rw [if_neg hreturn]
  by_cases htab : c = '\t'
  · rw [if_pos htab]
    exact .inr ⟨'t', [], rfl, by decide, by simp⟩
  rw [if_neg htab]
  -- what is printed as it is was found to be none of the special characters
  by_cases hprinted : isPrinted c = true
  · rw [if_pos hprinted]
    exact .inl ⟨rfl, hescaped.1, hescaped.2, hnewline⟩
  rw [if_neg hprinted]
  split
  · exact .inr ⟨'x', _, rfl, by decide, hhex⟩
  · split
    · exact .inr ⟨'u', _, rfl, by decide, hhex⟩
    · exact .inr ⟨'U', _, rfl, by decide, hhex⟩

/-- A character between quotes does not close them. -/
theorem behindQuote_quotedChar (hquote : quote = '\'' ∨ quote = '"') (c : Char)
    (rest : List Char) :
    behindQuote quote false (quotedChar quote c ++ rest) = behindQuote quote false rest := by
  rcases quotedChar_cases hquote c with ⟨h, hne, hbackslash, -⟩ | ⟨d, digits, h, -, hdigits⟩
  · rw [h]
    exact behindQuote_append (by simp [hne, hbackslash]) rest
  · -- the backslash takes the character behind it, and no digit is a quote
    have hopened : behindQuote quote false ('\\' :: d :: (digits ++ rest)) =
        behindQuote quote false (digits ++ rest) := by
      have hbackslash : '\\' ≠ quote := by rcases hquote with rfl | rfl <;> decide
      simp [behindQuote, hbackslash]
    rw [h, List.cons_append, List.cons_append, hopened]
    refine behindQuote_append (fun digit hdigit => ⟨?_, ?_⟩) rest
    · rintro rfl
      rcases hquote with rfl | rfl <;> cases hdigits _ hdigit
    · rintro rfl
      cases hdigits _ hdigit

theorem behindQuote_flatMap (hquote : quote = '\'' ∨ quote = '"') (text rest : List Char) :
    behindQuote quote false (text.flatMap (quotedChar quote) ++ quote :: rest) = rest := by
  induction text with
  | nil => simp [behindQuote]
  | cons c cs ih => rw [List.flatMap_cons, List.append_assoc, behindQuote_quotedChar hquote, ih]

end

/-- Text in quotes starts and ends with the same ones. -/
theorem exists_quoted (text : List Char) : ∃ quote, (quote = '\'' ∨ quote = '"') ∧
    quoted text = quote :: (text.flatMap (quotedChar quote) ++ [quote]) := by
  unfold quoted
  split
  · exact ⟨'"', .inr rfl, rfl⟩
  · exact ⟨'\'', .inl rfl, rfl⟩

/-- Text in quotes ends where they are closed. -/
theorem quoted_append_cancel {a b r r' : List Char} (h : quoted a ++ r = quoted b ++ r') :
    quoted a = quoted b ∧ r = r' := by
  have hrest : r = r' := by
    rcases exists_quoted a with ⟨quote, hquote, ha⟩
    rcases exists_quoted b with ⟨quote', -, hb⟩
    rw [ha, hb] at h
    -- both are in the same quotes, so what is behind these is told from the text as a whole
    obtain ⟨rfl, h⟩ := List.cons.inj h
    have hclosed (text rest : List Char) :
        behindQuote quote false (text.flatMap (quotedChar quote) ++ [quote] ++ rest) = rest := by
      rw [List.append_assoc]
      exact behindQuote_flatMap hquote text rest
    exact (hclosed a r).symm.trans ((congrArg (behindQuote quote false) h).trans (hclosed b r'))
  exact ⟨List.append_cancel_right (hrest ▸ h), hrest⟩

theorem not_mem_newline_quoted (text : List Char) : '\n' ∉ quoted text := by
  rcases exists_quoted text with ⟨quote, hquote, htext⟩
  have hne : '\n' ≠ quote := by rcases hquote with rfl | rfl <;> decide
  rw [htext]
  simp only [List.mem_cons, List.mem_append, List.mem_flatMap, List.not_mem_nil, or_false, hne,
    false_or]
  rintro ⟨c, -, hmem⟩
  -- a quoted character is none of the line ends, and neither are the characters of an escape
  rcases quotedChar_cases hquote c with ⟨h, -, -, hc⟩ | ⟨d, digits, h, hd, hdigits⟩
  · rw [h] at hmem
    exact hc (List.mem_singleton.1 hmem).symm
  · rw [h] at hmem
    rcases List.mem_cons.1 hmem with hmem | hmem
    · cases hmem
    · rcases List.mem_cons.1 hmem with hmem | hmem
      · exact hd hmem.symm
      · cases hdigits _ hmem

/-! ## Messages -/

/-- What a message about a file that is refused starts with. -/
def FileCause.opening (cause : FileCause) : List Char :=
  ("[Errno " ++ toString cause.number ++ "] " ++ cause.message ++ ": ").toList

theorem FileCause.opening_eq (cause : FileCause) :
    cause.opening = "[Errno ".toList ++ ((toString cause.number).toList ++
      (']' :: (" ".toList ++ (cause.message.toList ++ ": ".toList)))) := by
  have hbracket : "] ".toList = ']' :: " ".toList := rfl
  simp only [opening, String.toList_append, hbracket, List.append_assoc, List.cons_append]

/-- The number in front of the closing bracket tells the cause. -/
theorem FileCause.of_opening_append {cause cause' : FileCause} {r r' : List Char}
    (h : cause.opening ++ r = cause'.opening ++ r') : cause = cause' := by
  have hdigits (n : Nat) (rest : List Char) :
      ((toString n).toList ++ ']' :: rest).takeWhile (· ≠ ']') = (toString n).toList := by
    have hdigit : ∀ c ∈ (toString n).toList, decide (c ≠ ']') = true := by
      intro c hc
      rw [toList_toString] at hc
      refine decide_eq_true ?_
      rintro rfl
      cases isAlphanum_of_mem_toDigits (by decide) (by decide) hc
    rw [List.takeWhile_append_of_pos hdigit]
    simp
  -- both openings are the same text up to the number, which ends before the bracket
  simp only [opening_eq, List.append_assoc, List.cons_append, List.append_cancel_left_eq] at h
  have hnumber := congrArg (List.takeWhile (· ≠ ']')) h
  rw [hdigits, hdigits, toList_toString, toList_toString] at hnumber
  have hnumbers : cause.number = cause'.number := by
    rw [← digitsValue_toDigits cause.number, hnumber, digitsValue_toDigits]
  -- the number tells the cause
  have hall : ∀ c c' : FileCause, c.number = c'.number → c = c' := by
    intro c c'
    cases c <;> cases c' <;> decide
  exact hall cause cause' hnumbers

/-- Words on one line: they neither start with a bracket nor hold what stands between the message
of a problem and its path. -/
structure IsWords (message : List Char) : Prop where
  ne_nil : message ≠ []
  bracket : message.head? ≠ some '['
  line : '\n' ∉ message
  separator : ¬ " at".toList <:+: message

theorem isWords_iff {message : List Char} :
    IsWords message ↔ message ≠ [] ∧ message.head? ≠ some '[' ∧ '\n' ∉ message ∧
      ¬ " at".toList <:+: message :=
  ⟨fun h => ⟨h.1, h.2, h.3, h.4⟩, fun ⟨h₁, h₂, h₃, h₄⟩ => ⟨h₁, h₂, h₃, h₄⟩⟩

instance : DecidablePred IsWords := fun _ => decidable_of_iff _ isWords_iff.symm

/-- Words go on with a text that does not complete a separator. -/
theorem IsWords.append {a b : List Char} (h : IsWords a) (hline : '\n' ∉ b)
    (hseparator : ¬ " at".toList <:+: b) (hfirst : b.head? ≠ some 'a' ∧ b.head? ≠ some 't') :
    IsWords (a ++ b) where
  ne_nil := List.append_ne_nil_of_left_ne_nil h.ne_nil b
  bracket := by
    rw [List.head?_append_of_ne_nil _ h.ne_nil]
    exact h.bracket
  line := by simp [h.line, hline]
  separator := by
    rw [List.infix_append_iff]
    rintro (ha | hb | ⟨front, rest, heq, hfront, hrest⟩)
    · exact h.separator ha
    · exact hseparator hb
    · cases rest with
      | nil => exact h.separator (by rw [heq, List.append_nil]; exact hfront.isInfix)
      | cons c rest =>
          -- the separator is cut in front of one of its characters
          have hhead : b.head? = some c := by
            rcases hrest with ⟨more, rfl⟩
            rfl
          rw [hhead] at hfirst
          match front, heq with
          | [], heq => exact hseparator (by rw [heq]; exact hrest.isInfix)
          | [_], heq => exact hfirst.1 (by cases heq; rfl)
          | [_, _], heq => exact hfirst.2 (by cases heq; rfl)
          | _ :: _ :: _ :: front, heq => exact absurd (congrArg List.length heq) (by simp)

theorem IsWords.append_word {a b : List Char} (h : IsWords a)
    (hb : ∀ c ∈ b, c.isAlphanum = true) (hfirst : b.head? ≠ some 'a' ∧ b.head? ≠ some 't') :
    IsWords (a ++ b) := by
  refine h.append (fun hmem => by cases hb _ hmem) (fun hseparator => ?_) hfirst
  cases hb ' ' (hseparator.subset (by decide))

/-- The digits of a number do not start with a letter. -/
theorem IsWords.append_number {a : List Char} (h : IsWords a) (n : Nat) :
    IsWords (a ++ (toString n).toList) := by
  rw [toList_toString]
  refine h.append_word (fun _ => isAlphanum_of_mem_toDigits (by decide) (by decide)) ?_
  have hletter {c : Char} (hc : c.isDigit = false) : (Nat.toDigits 10 n).head? ≠ some c := by
    intro hhead
    rw [Nat.isDigit_of_mem_toDigits (by decide) (by decide) (List.mem_of_head? hhead)] at hc
    cases hc
  exact ⟨hletter rfl, hletter rfl⟩

theorem SchemaRule.isWords_message (rule : SchemaRule) : IsWords rule.message.toList := by
  cases rule <;> dsimp only [message]
  case importFilePresent | importFileString =>
    rw [String.toList_append, String.toList_ofList, String.toList_ofList]
    decide +kernel
  all_goals
    rw [String.toList_ofList]
    decide +kernel

theorem ImportFault.isWords_message (fault : ImportFault) : IsWords fault.message.toList := by
  cases fault <;> dsimp only [message] <;> rw [String.toList_ofList] <;> decide +kernel

theorem Utf8Fault.isWords_message (fault : Utf8Fault) : IsWords fault.message := by
  have hcause {a : List Char} (h : IsWords a) :
      IsWords (a ++ ": ".toList ++ fault.cause.message.toList) := by
    rw [List.append_assoc]
    apply h.append <;> cases fault.cause <;> decide +kernel
  unfold message
  simp only [String.toList_append]
  apply hcause
  split
  · -- one byte, at one position
    have hbyte : IsWords ("'utf-8' codec can't decode byte ".toList ++
        ("0x".toList ++ paddedHex 2 fault.byte.toNat)) := by
      refine IsWords.append_word (by decide +kernel) (fun c hc => ?_) ⟨by simp, by simp⟩
      rcases List.mem_append.1 hc with hc | hc
      · have hall : "0x".toList.all Char.isAlphanum = true := by decide +kernel
        exact List.all_eq_true.1 hall c hc
      · exact isAlphanum_of_mem_paddedHex hc
    have hposition : IsWords ("'utf-8' codec can't decode byte ".toList ++
        ("0x".toList ++ paddedHex 2 fault.byte.toNat) ++ " in position ".toList) := by
      apply hbyte.append <;> decide +kernel
    have hmessage := hposition.append_number fault.position
    simpa using hmessage
  · -- several bytes, at the positions from the first to the last
    have hfirst : IsWords ("'utf-8' codec can't decode bytes in position ".toList ++
        (toString fault.position).toList) := IsWords.append_number (by decide +kernel) _
    have hdash : IsWords ("'utf-8' codec can't decode bytes in position ".toList ++
        (toString fault.position).toList ++ "-".toList) := by
      apply hfirst.append <;> decide +kernel
    have hmessage := hdash.append_number (fault.position + fault.count - 1)
    simpa using hmessage

/-- Words in front of the separator are as short as any text in front of it. -/
theorem IsWords.length_le {a b r r' : List Char} (h : IsWords b)
    (heq : a ++ " at".toList ++ r = b ++ " at".toList ++ r') : b.length ≤ a.length := by
  have hseparator : " at".toList = [' ', 'a', 't'] := rfl
  rw [List.append_assoc, List.append_assoc] at heq
  rcases List.append_eq_append_iff.1 heq with ⟨more, rfl, hmore⟩ | ⟨more, rfl, -⟩
  · -- were `more` not empty, the words would go on with the separator
    rw [hseparator] at hmore
    match more, hmore with
    | [], _ => simp
    | [c], hmore => simp at hmore
    | [c, d], hmore => simp at hmore
    | c :: d :: e :: more, hmore =>
        simp only [List.cons_append, List.nil_append, List.cons.injEq] at hmore
        obtain ⟨rfl, rfl, rfl, -⟩ := hmore
        exact absurd ⟨a, more, by simp [hseparator]⟩ h.separator
  · simp

/-- The message of a problem: words, or the cause and the path for which a file is refused. -/
inductive IsMessage : List Char → Prop
  | words {message : List Char} (h : IsWords message) : IsMessage message
  | refused (cause : FileCause) (path : List Char) : IsMessage (cause.opening ++ quoted path)

theorem IsMessage.not_mem_newline {message : List Char} (h : IsMessage message) :
    '\n' ∉ message := by
  cases h with
  | words h => exact h.line
  | refused cause path =>
      rw [List.mem_append, not_or]
      refine ⟨?_, not_mem_newline_quoted path⟩
      cases cause <;> decide +kernel

/-- A message ends where the separator starts. -/
theorem IsMessage.append_cancel {a b r r' : List Char} (ha : IsMessage a) (hb : IsMessage b)
    (heq : a ++ " at".toList ++ r = b ++ " at".toList ++ r') : a = b ∧ r = r' := by
  -- only what is refused starts with a bracket, so both messages are of one kind
  have hmixed {a b r r' : List Char} (ha : IsWords a) (cause : FileCause) :
      a ++ r ≠ cause.opening ++ b ++ r' := by
    intro heq
    have hhead := congrArg List.head? heq
    rw [List.head?_append_of_ne_nil _ ha.ne_nil] at hhead
    apply ha.bracket
    rw [hhead]
    cases cause <;> rfl
  have hmessage : a = b := by
    cases ha with
    | words ha =>
        cases hb with
        | words hb =>
            have hlength := Nat.le_antisymm (ha.length_le heq.symm) (hb.length_le heq)
            rw [List.append_assoc, List.append_assoc] at heq
            exact (List.append_inj heq hlength).1
        | refused cause path =>
            rw [List.append_assoc, List.append_assoc (cause.opening ++ _)] at heq
            exact absurd heq (hmixed ha cause)
    | refused cause path =>
        cases hb with
        | words hb =>
            rw [List.append_assoc, List.append_assoc b] at heq
            exact absurd heq.symm (hmixed hb cause)
        | refused cause' path' =>
            simp only [List.append_assoc] at heq
            obtain rfl := FileCause.of_opening_append heq
            rw [(quoted_append_cancel (List.append_cancel_left heq)).1]
  subst hmessage
  rw [List.append_assoc, List.append_assoc] at heq
  exact ⟨rfl, List.append_cancel_left (List.append_cancel_left heq)⟩

/-! ## Problems as texts -/

/-- What stands in front of the last colon is told from the number behind it. -/
theorem append_colon_cancel {a b : List Char} {m n : Int}
    (h : a ++ ':' :: integerText m = b ++ ':' :: integerText n) : a = b ∧ m = n := by
  have hcolon (n : Int) : ':' ∉ integerText n := by
    intro hmem
    rcases of_mem_integerText hmem with hc | hc <;> cases hc
  -- nothing can be left in front of the last colon on one side only
  have hnone {m n : Int} {more : List Char}
      (h : ':' :: integerText m = more ++ ':' :: integerText n) : more = [] := by
    cases more with
    | nil => rfl
    | cons c more =>
        refine absurd ?_ (hcolon m)
        rw [(List.cons.inj h).2]
        exact List.mem_append_right more (List.mem_cons_self ..)
  have hfront : a = b := by
    rcases List.append_eq_append_iff.1 h with ⟨more, rfl, hmore⟩ | ⟨more, rfl, hmore⟩ <;>
      rw [hnone hmore, List.append_nil]
  subst hfront
  exact ⟨rfl, integerText_injective (List.cons.inj (List.append_cancel_left h)).2⟩

/-- A problem is read back from its text. -/
theorem Problem.eq_of_text {p q : Problem} (hp : IsMessage p.description)
    (hq : IsMessage q.description) (h : p.text = q.text) : p = q := by
  -- the text of a problem is cut from both ends: the message from the front, line and column from
  -- the back
  have htext (p : Problem) : p.text = p.description ++ " at".toList ++
      (' ' :: (p.path ++ ':' :: integerText p.place.line) ++
        ':' :: integerText p.place.column) := by
    simp [text, location, locationText]
  rw [htext, htext] at h
  -- no message is continued by the words that follow it, so the messages are equal
  rcases hp.append_cancel hq h with ⟨hdescription, hlocation⟩
  rcases append_colon_cancel hlocation with ⟨hfront, hcolumn⟩
  rcases append_colon_cancel (List.cons.inj hfront).2 with ⟨hpath, hline⟩
  cases p with
  | mk description path place =>
      cases q with
      | mk description' path' place' =>
          cases place
          cases place'
          simp_all

/-! ## Lines -/

namespace Problem

/-- A text that takes one line, and one more for each line feed in the path. -/
theorem count_newline_text {p : Problem} (h : IsMessage p.description) :
    p.text.count '\n' = p.path.count '\n' := by
  have hinteger (n : Int) : '\n' ∉ integerText n := by
    intro hmem
    rcases of_mem_integerText hmem with hc | hc <;> cases hc
  have hseparator : (" at ".toList).count '\n' = 0 := by decide
  simp only [text, location, locationText, List.count_append, List.count_cons, hseparator,
    List.count_eq_zero.2 h.not_mem_newline, List.count_eq_zero.2 (hinteger _)]
  simp

/-- Cut at its line feeds, the report is made of the lines of the problems, and of nothing behind
the last one. -/
theorem splitOn_report (problems : List Problem) :
    (report problems).splitOn '\n' = problems.flatMap (fun p => p.text.splitOn '\n') ++ [[]] := by
  unfold report
  induction problems with
  | nil => rfl
  | cons p problems ih =>
      rw [List.flatMap_cons, List.flatMap_cons, List.append_assoc, List.singleton_append,
        List.splitOn_append_cons_self, ih, List.append_assoc]

theorem length_splitOn (text : List Char) :
    (text.splitOn '\n').length = text.count '\n' + 1 := by
  induction text with
  | nil => rfl
  | cons c text ih =>
      rw [List.splitOn_cons_eq_if_modifyHead, List.count_cons]
      split <;> simp_all

theorem length_splitOn_report {problems : List Problem}
    (h : ∀ p ∈ problems, IsMessage p.description) :
    ((report problems).splitOn '\n').length =
      problems.length + (problems.map fun p => p.path.count '\n').sum + 1 := by
  rw [splitOn_report]
  induction problems with
  | nil => rfl
  | cons p problems ih =>
      rw [List.forall_mem_cons] at h
      rw [List.flatMap_cons, List.append_assoc, List.length_append, ih h.2, length_splitOn,
        count_newline_text h.1, List.length_cons, List.map_cons, List.sum_cons]
      omega

/-- The report has one line for each problem if and only if no path holds a line feed. -/
theorem splitOn_report_eq_iff {problems : List Problem}
    (h : ∀ p ∈ problems, IsMessage p.description) :
    (report problems).splitOn '\n' = problems.map text ++ [[]] ↔
      ∀ p ∈ problems, '\n' ∉ p.path := by
  constructor
  · -- by the number of lines
    intro heq p hp hmem
    have hlength := congrArg List.length heq
    rw [length_splitOn_report h, List.length_append, List.length_map, List.length_singleton]
      at hlength
    have hle := List.le_sum_of_mem (List.mem_map_of_mem (f := fun p => p.path.count '\n') hp)
    have hpos := List.count_pos_iff.2 hmem
    omega
  · intro hnone
    rw [splitOn_report]
    congr 1
    induction problems with
    | nil => rfl
    | cons p problems ih =>
        rw [List.forall_mem_cons] at h hnone
        have hline : '\n' ∉ p.text := by
          rw [← List.count_eq_zero, count_newline_text h.1, List.count_eq_zero]
          exact hnone.1
        rw [List.flatMap_cons, List.splitOn_eq_singleton hline, ih h.2 hnone.2]
        rfl

/-- Problems whose paths hold no line feed are read back from their report. -/
theorem eq_of_report {problems problems' : List Problem}
    (h : ∀ p ∈ problems, IsMessage p.description) (h' : ∀ p ∈ problems', IsMessage p.description)
    (hpaths : ∀ p ∈ problems, '\n' ∉ p.path) (hpaths' : ∀ p ∈ problems', '\n' ∉ p.path)
    (heq : report problems = report problems') : problems = problems' := by
  -- the lines of the report are the texts of the problems, one each, as no path breaks a line
  have hlines : problems.map text ++ [[]] = problems'.map text ++ [[]] := by
    rw [← (splitOn_report_eq_iff h).2 hpaths, heq, (splitOn_report_eq_iff h').2 hpaths']
  have htexts := List.append_cancel_right hlines
  clear heq hpaths hpaths' hlines
  -- then compare the two lists text by text
  induction problems generalizing problems' with
  | nil => exact (List.map_eq_nil_iff.1 htexts.symm).symm
  | cons p problems ih =>
      cases problems' with
      | nil => cases htexts
      | cons p' problems' =>
          rw [List.forall_mem_cons] at h h'
          rw [List.map_cons, List.map_cons, List.cons.injEq] at htexts
          rw [eq_of_text h.1 h'.1 htexts.1, ih h.2 h'.2 htexts.2]

end Problem

/-! ## The problems of a run -/

theorem FileFault.isMessage_message (fault : FileFault) : IsMessage fault.message := by
  cases fault with
  | nullByte => exact .words (by decide +kernel)
  | refused cause path => exact .refused cause path
  | notText fault => exact .words fault.isWords_message

/-- What a source reports is about its path. -/
theorem Source.of_mem_problems_report {scope : Scope} {s : Source} {p : Problem}
    (h : p ∈ (s.report scope).problems) : IsMessage p.description ∧ p.path = s.path := by
  cases hparsed : s.parse scope with
  | error fault =>
      -- an import path that cannot be formed is the only problem of its source
      rw [Source.report_of_importFault hparsed] at h
      obtain rfl := List.mem_singleton.1 h
      exact ⟨.words fault.isWords_message, rfl⟩
  | ok parsed =>
      rw [Source.report_eq hparsed] at h
      -- otherwise a problem is an invalid occurrence or a violated rule
      rcases List.mem_append.1 h with h | h
      · rcases List.mem_map.1 h with ⟨offset, -, rfl⟩
        have hwords : IsWords invalidJsonMessage := by decide +kernel
        exact ⟨.words hwords, rfl⟩
      · rcases List.mem_filterMap.1 h with ⟨offset, -, h⟩
        rcases Option.map_eq_some_iff.1 h with ⟨violation, -, rfl⟩
        exact ⟨.words violation.rule.isWords_message, rfl⟩

theorem Compiler.of_mem_problems_reportOf {c : Compiler} {env : Environment} {path : List Char}
    {p : Problem} (h : p ∈ (c.reportOf env path).problems) :
    IsMessage p.description ∧ p.path = path := by
  unfold reportOf at h
  split at h
  · next s hread =>
    rw [← (Environment.path_of_readSource hread).1]
    exact Source.of_mem_problems_report h
  · next fault hread =>
    obtain rfl := List.mem_singleton.1 h
    exact ⟨fault.isMessage_message, rfl⟩

/-- What a run of the compiler leaves is about its candidates, or about no file. -/
theorem RunState.of_mem_problems_compile {state : RunState} {env : Environment} {p : Problem}
    (h : p ∈ (state.compile env).problems) :
    IsMessage p.description ∧ (p.path = [] ∨ p.path ∈ state.candidates.map Path.text) := by
  unfold compile at h
  dsimp only at h
  split at h
  · obtain rfl := List.mem_singleton.1 h
    exact ⟨.words (by decide +kernel), .inl rfl⟩
  · have hrange := List.Perm.refl (List.range (state.candidates.map Path.text).length)
    -- a path with a null character stops the compiler, with one problem about no file
    by_cases hnull : ∀ path ∈ state.candidates.map Path.text, '\x00' ∉ path
    · rw [Compiler.compile, (Compiler.compileIn_of_not_null _ _ _ _ hrange hnull).1] at h
      rcases List.mem_flatMap.1 h with ⟨path, hpath, hp⟩
      rcases Compiler.of_mem_problems_reportOf hp with ⟨hmessage, rfl⟩
      exact ⟨hmessage, .inr (Compiler.mem_processingOrder.1 hpath)⟩
    · rw [Compiler.compile, (Compiler.compileIn_of_null _ _ _ _ hrange hnull).1] at h
      obtain rfl := List.mem_singleton.1 h
      exact ⟨FileFault.isMessage_message .nullByte, .inl rfl⟩

/-- The problems that a completed run leaves are messages about its candidates, or about no file. -/
theorem of_mem_problems_runStages {env : Environment} {state final : RunState}
    (hrun : (runStages env state allStages).outcome = .ok final) {p : Problem}
    (hp : p ∈ final.problems) :
    IsMessage p.description ∧ (p.path = [] ∨ p.path ∈ final.candidates.map Path.text) := by
  rcases of_runStages hrun with ⟨found, rfl, -⟩
  exact RunState.of_mem_problems_compile hp

/-- After a completed run the report has as many lines as there are problems, and one more for each
line feed in the path of a problem, with nothing behind the last one. Only such a path does harm:
where none is left, each line is the text of its problem, and no other problems of a completed run
have the same report. -/
theorem runStages_report {env : Environment} {state final : RunState}
    (hrun : (runStages env state allStages).outcome = .ok final) :
    ∃ report bytes text, state.resultPath state.options.problemsFile = .ok report ∧
      (runStages env state allStages).files.read report.text = .ok bytes ∧
      Utf8.decode bytes = .ok text ∧
      (text.splitOn '\n').length =
        final.problems.length + (final.problems.map fun p => p.path.count '\n').sum + 1 ∧
      (text.splitOn '\n' = final.problems.map Problem.text ++ [[]] ↔
        ∀ p ∈ final.problems, '\n' ∉ p.path) ∧
      (∀ p ∈ final.problems, p.path = [] ∨ p.path ∈ final.candidates.map Path.text) ∧
      ∀ (env' : Environment) (state' final' : RunState),
        (runStages env' state' allStages).outcome = .ok final' →
        (∀ p ∈ final.problems ++ final'.problems, '\n' ∉ p.path) →
        Problem.report final'.problems = text → final'.problems = final.problems := by
  -- of the messages only their form is used, for both runs alike
  have hmessages := fun p (hp : p ∈ final.problems) => (of_mem_problems_runStages hrun hp).1
  rcases read_report hrun with ⟨report, hpath, hread⟩
  refine ⟨report, _, _, hpath, hread, Utf8.decode_encode _,
    Problem.length_splitOn_report hmessages, Problem.splitOn_report_eq_iff hmessages,
    fun p hp => (of_mem_problems_runStages hrun hp).2, ?_⟩
  intro env' state' final' hrun' hpaths heq
  have hmessages' := fun p (hp : p ∈ final'.problems) => (of_mem_problems_runStages hrun' hp).1
  rw [List.forall_mem_append] at hpaths
  exact Problem.eq_of_report hmessages' hmessages hpaths.2 hpaths.1 heq

/-- A project of one file, in which no JSON stands behind the marker. -/
def Environment.withoutJson (name : Name) : Environment :=
  { settings := {}
    files := ⟨[(["in".toList], .directory),
      (["in".toList, name], .file 0)], [(0, Utf8.encode "#DCECOMP \x7b".toList)], []⟩
    workingDirectory := []
    room := 981
    poolRoom := 983 }

theorem runStages_report_one_problem :
    let env := Environment.withoutJson "a.dcecomp".toList
    let state : RunState :=
      { inputDirectory := some (.ofText "in".toList)
        outputDirectory := .ofText "out".toList
        options := {} }
    ∃ final report bytes text, (runStages env state allStages).outcome = .ok final ∧
      final.problems = [⟨invalidJsonMessage, "in/a.dcecomp".toList, .unknown⟩] ∧
      state.resultPath state.options.problemsFile = .ok report ∧
      (runStages env state allStages).files.read report.text = .ok bytes ∧
      Utf8.decode bytes = .ok text ∧
      text.splitOn '\n' = final.problems.map Problem.text ++ [[]] ∧
      ∀ (env' : Environment) (state' final' : RunState),
        (runStages env' state' allStages).outcome = .ok final' →
        (∀ p ∈ final.problems ++ final'.problems, '\n' ∉ p.path) →
        Problem.report final'.problems = text → final'.problems = final.problems := by
  intro env state
  -- only the problems are evaluated; the rest is the theorem
  have hproblems : (runStages env state allStages).outcome.toOption.map RunState.problems =
      some [⟨invalidJsonMessage, "in/a.dcecomp".toList, .unknown⟩] := by decide +kernel
  rcases hrun : (runStages env state allStages).outcome with stop | final
  · rw [hrun] at hproblems
    cases hproblems
  · have hfinal : final.problems = [⟨invalidJsonMessage, "in/a.dcecomp".toList, .unknown⟩] := by
      rw [hrun] at hproblems
      exact Option.some.inj hproblems
    rcases runStages_report hrun with
      ⟨report, bytes, text, hpath, hread, hdecode, -, hlines, -, hrecovered⟩
    refine ⟨final, report, bytes, text, rfl, hfinal, hpath, hread, hdecode, hlines.2 ?_, hrecovered⟩
    rw [hfinal]
    decide +kernel

/-- The line feed in the name of a file breaks the line of the only problem. -/
theorem exists_problem_on_two_lines :
    let env := Environment.withoutJson "a\nb.dcecomp".toList
    let state : RunState :=
      { inputDirectory := some (.ofText "in".toList)
        outputDirectory := .ofText "out".toList
        options := {} }
    ∃ final report bytes text, (runStages env state allStages).outcome = .ok final ∧
      final.problems = [⟨invalidJsonMessage, "in/a\nb.dcecomp".toList, .unknown⟩] ∧
      state.resultPath state.options.problemsFile = .ok report ∧
      (runStages env state allStages).files.read report.text = .ok bytes ∧
      Utf8.decode bytes = .ok text ∧
      text.splitOn '\n' =
        ["A #DCECOMP marker was not followed by valid JSON at in/a".toList,
          "b.dcecomp:-1:-1".toList, []] := by
  intro env state
  have hproblems : (runStages env state allStages).outcome.toOption.map RunState.problems =
      some [⟨invalidJsonMessage, "in/a\nb.dcecomp".toList, .unknown⟩] := by decide +kernel
  rcases hrun : (runStages env state allStages).outcome with stop | final
  · rw [hrun] at hproblems
    cases hproblems
  · have hfinal : final.problems = [⟨invalidJsonMessage, "in/a\nb.dcecomp".toList, .unknown⟩] := by
      rw [hrun] at hproblems
      exact Option.some.inj hproblems
    rcases read_report hrun with ⟨report, hpath, hread⟩
    refine ⟨final, report, _, _, rfl, hfinal, hpath, hread, Utf8.decode_encode _, ?_⟩
    rw [hfinal]
    decide +kernel

end ComponentMarkup
