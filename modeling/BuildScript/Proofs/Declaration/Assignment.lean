import BuildScript.Session.Update
import BuildScript.Proofs.Text.Scan
import BuildScript.Proofs.Declaration.Bounds
/-!
# Assignments and their values

A property is found where a line opens with a key and an equals sign and a value follows that has
only blanks or a comment behind it. `Frames` is what stands around the value; it says nothing about
the value, so a value written over another one stands in the same frame. For the line to be read
with the new value, a comment must be told from it, which is what `Plain` is for.

Results:
* `find?_spec`, `Frames.find?`: a property is found exactly in a frame.
* `find?_setValue`: a property whose value is set is found with that value.
* `Opens.setValue_setValue_iff`: when a value leaves nothing behind once another is set over it.
* `find?_eq_none_of_stop`: whether a line is an assignment shows in front of its first quoted part.
-/
namespace BuildScript

namespace Property

open Text

/-! ## Openings -/

/-- What a property assigns with: the key, blanks, an equals sign and blanks. -/
def Opens (key front : Text) : Prop :=
  ∃ c w b, front = c :: w ++ '=' :: b ∧ isIdentifierStart c = true ∧
    key = c :: w.takeWhile isDotted ∧ trimLeft (w.dropWhile isDotted) = [] ∧
    ∀ x ∈ b, isBlank x = true

variable {key front value u v : Text}

theorem not_isDotted_equals : isDotted '=' = false := by decide

theorem not_isBlank_equals : isBlank '=' = false := by decide

/-- What stands in front of a key and its equals sign shows what the key is. -/
theorem trimLeft_dropWhile_append (w s : Text) : trimLeft ((w ++ '=' :: s).dropWhile isDotted) =
    trimLeft (w.dropWhile isDotted) ++ '=' :: s := by
  rw [dropWhile_append_stop not_isDotted_equals, trimLeft,
    dropWhile_append_stop not_isBlank_equals]
  rfl

theorem readAssignment?_spec {s rest : Text} (h : readAssignment? s = some (key, rest)) :
    ∃ front, s = front ++ rest ∧ Opens key front ∧ trimLeft rest = rest := by
  cases s with
  | nil => cases h
  | cons c s =>
    rw [readAssignment?] at h
    split at h
    · next hc =>
      split at h
      · cases h
      · next r _ e =>
        cases h
        have hs : s.takeWhile isDotted ++ s.dropWhile isDotted = s :=
          List.takeWhile_append_dropWhile
        have ht : (s.dropWhile isDotted).takeWhile isBlank ++ '=' :: r = s.dropWhile isDotted := by
          rw [← e]
          exact List.takeWhile_append_dropWhile
        have hr : r.takeWhile isBlank ++ trimLeft r = r := List.takeWhile_append_dropWhile
        generalize (s.dropWhile isDotted).takeWhile isBlank = b₁ at ht
        have hsplit : s = (s.takeWhile isDotted ++ b₁) ++ '=' :: r := by
          rw [List.append_assoc, ht, hs]
        generalize s.takeWhile isDotted ++ b₁ = w at hsplit
        rw [hsplit, trimLeft_dropWhile_append] at e
        refine ⟨c :: w ++ '=' :: r.takeWhile isBlank, ?_, ⟨c, w, _, rfl, hc, ?_, ?_, ?_⟩, ?_⟩
        · rw [List.append_assoc, List.cons_append, List.cons_append, hr, ← hsplit]
        · rw [hsplit, takeWhile_append_stop not_isDotted_equals]
        · exact List.append_cancel_right (e.trans (List.nil_append _).symm)
        · exact fun x hx => List.all_eq_true.1 List.all_takeWhile x hx
        · exact trimLeft_trimLeft r
      · cases h
    · cases h

/-- Behind an opening anything is assigned that begins with neither a blank nor an equals sign. -/
theorem Opens.readAssignment? {rest : Text} (h : Opens key front) (hrest : trimLeft rest = rest)
    (heq : rest.head? ≠ some '=') : readAssignment? (front ++ rest) = some (key, rest) := by
  obtain ⟨c, w, b, rfl, hc, rfl, hw, hb⟩ := h
  have hbehind : trimLeft ((w ++ '=' :: (b ++ rest)).dropWhile isDotted) = '=' :: (b ++ rest) := by
    rw [trimLeft_dropWhile_append, hw]
    rfl
  have hhead : ∀ r, b ++ rest ≠ '=' :: r := by
    intro r hr
    cases b with
    | nil => exact heq (by rw [show rest = '=' :: r from hr]; rfl)
    | cons x b =>
      have hx := hb x List.mem_cons_self
      rw [(List.cons.inj hr).1] at hx
      exact absurd hx (by decide)
  rw [List.append_assoc, List.cons_append, List.cons_append, Property.readAssignment?, if_pos hc,
    hbehind]
  split
  · next r e => exact absurd (List.cons.inj e).2 (hhead r)
  · next r _ e =>
    rw [← (List.cons.inj e).2, trimLeft_append_of_blank hb, hrest,
      takeWhile_append_stop not_isDotted_equals]
  · next _ hne => exact absurd rfl (hne (b ++ rest))

/-- In front of a quoted part a line opens with the same assignment whatever stands in the part and
behind it. -/
theorem readAssignment?_append_stop {mark : Char} {w s rest : Text} (hmark : isQuote mark = true)
    (h : readAssignment? (w ++ mark :: s) = some (key, rest)) :
    ∃ t, ∀ s', readAssignment? (w ++ mark :: s') = some (key, t ++ mark :: s') ∧
      trimLeft (t ++ mark :: s') = t ++ mark :: s' := by
  have hdotted : isDotted mark = false := by rcases isQuote_cases hmark with rfl | rfl <;> decide
  have hequals : mark ≠ '=' := by rcases isQuote_cases hmark with rfl | rfl <;> decide
  have hblank := not_isBlank_of_isQuote hmark
  cases w with
  | nil =>
    rw [List.nil_append, readAssignment?, if_neg] at h
    · cases h
    · rcases isQuote_cases hmark with rfl | rfl <;> decide
  | cons c w =>
    have hbehind (s : Text) : trimLeft ((w ++ mark :: s).dropWhile isDotted) =
        trimLeft (w.dropWhile isDotted) ++ mark :: s := by
      rw [dropWhile_append_stop hdotted, trimLeft, dropWhile_append_stop hblank]
      rfl
    rw [List.cons_append, readAssignment?] at h
    split at h
    · next hc =>
      split at h
      · cases h
      · next r hsingle e =>
        cases h
        rw [hbehind] at e
        obtain ⟨p, hp, rfl⟩ : ∃ p, trimLeft (w.dropWhile isDotted) = '=' :: p ∧
            r = p ++ mark :: s := by
          cases hq : trimLeft (w.dropWhile isDotted) with
          | nil =>
            rw [hq] at e
            exact absurd (List.cons.inj e).1 hequals
          | cons d p =>
            rw [hq] at e
            exact ⟨p, by rw [(List.cons.inj e).1], (List.cons.inj e).2.symm⟩
        -- the mark is no equals sign, so a second one would stand in front of it
        have hother : ∀ s' r, p ++ mark :: s' ≠ '=' :: r := by
          intro s' r e
          cases p with
          | nil => exact hequals (List.cons.inj e).1
          | cons d p =>
            obtain ⟨rfl, -⟩ := List.cons.inj e
            exact hsingle _ rfl
        refine ⟨trimLeft p, fun s' => ?_⟩
        have htrim : trimLeft (p ++ mark :: s') = trimLeft p ++ mark :: s' :=
          dropWhile_append_stop hblank p s'
        refine ⟨?_, by rw [← htrim, trimLeft_trimLeft]⟩
        rw [List.cons_append, readAssignment?, if_pos hc, hbehind, hp, List.cons_append]
        split
        · next e => exact absurd (List.cons.inj e).2 (hother s' _)
        · next e =>
          rw [← (List.cons.inj e).2, htrim, takeWhile_append_stop hdotted,
            takeWhile_append_stop hdotted]
        · next hnone => exact absurd rfl (hnone _)
      · cases h
    · cases h

/-! ## Values -/

/-- What may stand behind a value: blanks and perhaps a comment. -/
def Ends (v : Text) : Prop :=
  ∃ b r, v = b ++ r ∧ (∀ c ∈ b, isBlank c = true) ∧ (r = [] ∨ ∃ t, r = '/' :: '/' :: t)

theorem valueOf?_spec {rest : Text} (h : valueOf? rest = some value) :
    value ≠ [] ∧ trimRight value = value ∧ ∃ v, rest = value ++ v ∧ Ends v := by
  obtain ⟨hne, -⟩ := prefix_of_valueOf? h
  obtain ⟨b, hb, hrest⟩ := eq_trimRight_append rest
  obtain ⟨r, hclause, hr⟩ := eq_beforeComment_append (trimRight rest)
  obtain ⟨b', hb', hcode⟩ := eq_trimRight_append (beforeComment (trimRight rest))
  have hvalue : value = trimRight (beforeComment (trimRight rest)) := by
    unfold valueOf? at h
    dsimp only at h
    split at h
    · cases h
    · split at h
      · cases h
      · exact (Option.some.inj h).symm
  rw [← hvalue] at hcode
  rw [hcode] at hclause
  rw [hclause] at hrest
  refine ⟨hne, by rw [hvalue, trimRight_trimRight], b' ++ r ++ b, by simp [hrest], ?_⟩
  rcases hr with rfl | ⟨t, rfl⟩
  · refine ⟨b' ++ b, [], by simp, fun c hc => ?_, Or.inl rfl⟩
    rcases List.mem_append.1 hc with hc | hc
    · exact hb' c hc
    · exact hb c hc
  · exact ⟨b', '/' :: '/' :: (t ++ b), by simp, hb', Or.inr ⟨t ++ b, rfl⟩⟩

/-- A value that a comment can be told from: one literal, or a bare text without quotation marks
and slashes. -/
inductive Plain : Text → Prop
  | literal {mark : Char} {body : Text} (hmark : isQuote mark = true)
      (hbody : ∀ c ∈ body, c ≠ mark ∧ c ≠ '\\') : Plain (mark :: body ++ [mark])
  | bare {value : Text} (hne : value ≠ []) (htrim : trim value = value)
      (heq : value.head? ≠ some '=') (hchars : ∀ c ∈ value, isQuote c = false ∧ c ≠ '/') :
      Plain value

namespace Plain

theorem trimLeft_eq (h : Plain value) : trimLeft value = value := by
  cases h with
  | literal hmark => exact trimLeft_cons_of_not_blank (not_isBlank_of_isQuote hmark) _
  | bare _ htrim => exact (trim_eq_self htrim).1

theorem trimRight_eq (h : Plain value) : trimRight value = value := by
  cases h with
  | literal hmark => exact trimRight_append_stop (not_isBlank_of_isQuote hmark) _ []
  | bare _ htrim => exact (trim_eq_self htrim).2

theorem ne_nil (h : Plain value) : value ≠ [] := by
  cases h with
  | literal => exact List.cons_ne_nil _ _
  | bare hne => exact hne

theorem head?_ne (h : Plain value) : value.head? ≠ some '=' := by
  cases h with
  | literal hmark => rcases isQuote_cases hmark with rfl | rfl <;> simp
  | bare _ _ heq => exact heq

theorem commentFrom_append (h : Plain value) (offset : Nat) (t : Text) :
    commentFrom none offset (value ++ t) = commentFrom none (offset + value.length) t := by
  cases h with
  | literal hmark hbody => exact commentFrom_append_literal hmark hbody offset t
  | bare _ _ _ hchars => exact commentFrom_append_plain hchars offset t

theorem valueOf?_append (h : Plain value) (hv : Ends v) (hlf : '\n' ∉ value ++ v) :
    valueOf? (value ++ v) = some value := by
  obtain ⟨b, r, rfl, hb, hr⟩ := hv
  have hplain : ∀ c ∈ b, isQuote c = false ∧ c ≠ '/' := by
    intro c hc
    have hblank := hb c hc
    refine ⟨not_isQuote_of_isBlank hblank, ?_⟩
    rintro rfl
    exact absurd hblank (by decide)
  have hclause : '\n' ∉ trimRight (value ++ (b ++ r)) := fun hmem =>
    hlf ((prefix_trimRight _).subset hmem)
  have hvalue : trimRight (beforeComment (trimRight (value ++ (b ++ r)))) = value := by
    rcases hr with rfl | ⟨t, rfl⟩
    · have hcode : beforeComment value = value := by
        have := h.commentFrom_append 0 []
        rw [List.append_nil] at this
        unfold beforeComment commentStart
        rw [this]
        rfl
      rw [List.append_nil, trimRight_append_of_blank hb, h.trimRight_eq, hcode, h.trimRight_eq]
    · have htrim : trimRight (value ++ (b ++ '/' :: '/' :: t)) =
          value ++ (b ++ '/' :: '/' :: trimRight t) := by
        have := trimRight_append_stop (by decide : isBlank '/' = false) (value ++ b ++ ['/']) t
        simpa using this
      have hcode : beforeComment (value ++ (b ++ '/' :: '/' :: trimRight t)) = value ++ b := by
        unfold beforeComment commentStart
        rw [h.commentFrom_append, commentFrom_append_plain hplain, Nat.zero_add,
          ← List.length_append, ← List.append_assoc]
        exact List.take_left
      rw [htrim, hcode, trimRight_append_of_blank hb, h.trimRight_eq]
  have hne := h.ne_nil
  unfold valueOf?
  dsimp only
  rw [if_neg hclause, hvalue]
  cases value with
  | nil => exact absurd rfl hne
  | cons c t => rfl

end Plain

/-! ## Properties in their lines -/

/-- What stands around the value of a property: blanks and the opening in front of it, blanks and
perhaps a comment behind it. -/
structure Frames (key u front v : Text) : Prop where
  blank : ∀ c ∈ u, isBlank c = true
  opens : Opens key front
  key : key ∉ reservedKeys
  ends : Ends v

theorem find?_eq (line : Text) : find? line =
    (readAssignment? (trimLeft line)).bind fun assignment =>
      (valueOf? assignment.2).bind fun value =>
        if assignment.1 ∈ reservedKeys then none
        else some ⟨line.length - (trimLeft line).length,
          line.length - assignment.2.length + value.length, ⟨assignment.1, unquote value⟩⟩ := rfl

/-- A property is found in a frame, and its value has no blanks around it. -/
theorem find?_spec {line : Text} {found : Found Property} (h : find? line = some found) :
    ∃ u front value v, line = u ++ front ++ value ++ v ∧ Frames found.value.key u front v ∧
      value ≠ [] ∧ trim value = value ∧
      found = ⟨u.length, (u ++ front ++ value).length, ⟨found.value.key, unquote value⟩⟩ := by
  obtain ⟨⟨key, rest⟩, hkey, h⟩ := Option.bind_eq_some_iff.1 h
  obtain ⟨value, hvalue, h⟩ := Option.bind_eq_some_iff.1 h
  split at h
  · cases h
  · next hreserved =>
    cases h
    obtain ⟨front, hfront, hopens, htrim⟩ := readAssignment?_spec hkey
    obtain ⟨hne, hright, v, hrest, hends⟩ := valueOf?_spec hvalue
    have hline : line.takeWhile isBlank ++ trimLeft line = line := List.takeWhile_append_dropWhile
    have hblank : ∀ c ∈ line.takeWhile isBlank, isBlank c = true :=
      fun c hc => List.all_eq_true.1 List.all_takeWhile c hc
    generalize line.takeWhile isBlank = u at hline hblank
    have hleft : trimLeft value = value := by
      cases value with
      | nil => exact absurd rfl hne
      | cons c t =>
        rw [hrest] at htrim
        exact trimLeft_cons_of_not_blank (not_isBlank_of_trimLeft htrim) t
    have htext : line = u ++ front ++ value ++ v := by
      rw [List.append_assoc, List.append_assoc, ← hrest, ← hfront, hline]
    refine ⟨u, front, value, v, htext, ⟨hblank, hopens, hreserved, hends⟩, hne, ?_, ?_⟩
    · rw [trim, hleft, hright]
    · have hlen := congrArg List.length hline
      have hlen' := congrArg List.length hfront
      have hlen'' := congrArg List.length hrest
      simp only [List.length_append] at hlen hlen' hlen'' ⊢
      congr 1 <;> omega

/-- A plain value in a frame is found. -/
theorem Frames.find? (h : Frames key u front v) (hvalue : Plain value)
    (hlf : '\n' ∉ u ++ front ++ value ++ v) : find? (u ++ front ++ value ++ v) =
      some ⟨u.length, (u ++ front ++ value).length, ⟨key, unquote value⟩⟩ := by
  have hclause : trimLeft (u ++ front ++ value ++ v) = front ++ (value ++ v) := by
    obtain ⟨c, w, b, rfl, hc, -⟩ := h.opens
    rw [List.append_assoc, List.append_assoc, trimLeft_append_of_blank h.blank]
    exact trimLeft_cons_of_not_blank (not_isBlank_of_isIdentifierStart hc) _
  have hleft : trimLeft (value ++ v) = value ++ v := by
    have hne := hvalue.ne_nil
    have htrim := hvalue.trimLeft_eq
    cases value with
    | nil => exact absurd rfl hne
    | cons c t => exact trimLeft_cons_of_not_blank (not_isBlank_of_trimLeft htrim) _
  have hhead : (value ++ v).head? ≠ some '=' := by
    have hne := hvalue.ne_nil
    have hhead := hvalue.head?_ne
    cases value with
    | nil => exact absurd rfl hne
    | cons c t => exact hhead
  have hlf' : '\n' ∉ value ++ v := by
    intro hmem
    refine hlf ?_
    rw [List.append_assoc]
    exact List.mem_append_right _ hmem
  rw [find?_eq, hclause, h.opens.readAssignment? hleft hhead, Option.bind_some,
    hvalue.valueOf?_append h.ends hlf', Option.bind_some, if_neg h.key]
  simp only [List.length_append, Option.some.injEq, Found.mk.injEq, and_true]
  omega

/-! ## Setting a value -/

/-- Whether a value may be written over the one in a clause: it must not end the literal that the
old value is, nor look like a literal, a comment or a comparison if the old value is bare. -/
def isPlainValue (raw value : Text) : Bool :=
  let clause := trim ((raw.dropWhile (· != '=')).drop 1)
  if isLiteral clause then value.all fun c => clause.head? != some c && c != '\\' && c != '\n'
  else value != [] && value.head? != some '=' && trim value == value &&
    value.all fun c => !isQuote c && c != '/' && c != '\n'

theorem Opens.clause_eq (h : Opens key front) (s : Text) :
    trim (((front ++ s).dropWhile (· != '=')).drop 1) = trim s := by
  obtain ⟨c, w, b, rfl, hc, -, hw, hb⟩ := h
  have hother : ∀ x ∈ c :: w, (x != '=') = true := by
    intro x hx
    rw [bne_iff_ne]
    rintro rfl
    rcases List.mem_cons.1 hx with rfl | hx
    · exact absurd hc (by decide)
    · rw [← List.takeWhile_append_dropWhile (p := isDotted) (l := w)] at hx
      rcases List.mem_append.1 hx with hx | hx
      · have := List.all_eq_true.1 List.all_takeWhile _ hx
        exact absurd this (by decide)
      · have := List.dropWhile_eq_nil_iff.1 hw _ hx
        exact absurd this (by decide)
  have hclause : c :: w ++ '=' :: b ++ s = c :: w ++ '=' :: (b ++ s) := by simp
  rw [hclause, dropWhile_of_all hother (by decide), List.drop_one, List.tail_cons, trim, trim,
    trimLeft_append_of_blank hb]

theorem unquote_of_isLiteral (h : isLiteral value = true) :
    ∃ mark, isQuote mark = true ∧ value = mark :: unquote value ++ [mark] := by
  cases value with
  | nil => cases h
  | cons mark s =>
    obtain ⟨hmark, hclose⟩ := Bool.and_eq_true_iff.1 h
    obtain ⟨body, rfl⟩ := eq_append_of_closeLiteral? (beq_iff_eq.1 hclose)
    refine ⟨mark, hmark, ?_⟩
    rw [unquote, if_pos h, ← List.cons_append, List.dropLast_concat]
    rfl

/-- A value in the place of another: between the same marks if the other is a literal, and else as
it is given. -/
def rewritten (old new : Text) : Text :=
  match old with
  | mark :: _ => if isLiteral old then mark :: new ++ [mark] else new
  | [] => new

theorem rewritten_of_not_isLiteral (h : isLiteral value = false) (new : Text) :
    rewritten value new = new := by
  cases value with
  | nil => rfl
  | cons mark t => rw [rewritten, h, if_neg Bool.false_ne_true]

theorem rewritten_of_isLiteral (h : isLiteral value = true) : ∃ mark, isQuote mark = true ∧
    value = mark :: unquote value ++ [mark] ∧
      ∀ new, rewritten value new = mark :: new ++ [mark] := by
  obtain ⟨mark, hmark, hvalue⟩ := unquote_of_isLiteral h
  refine ⟨mark, hmark, hvalue, fun new => ?_⟩
  cases value with
  | nil => cases h
  | cons c t => rw [rewritten, h, if_pos rfl, (List.cons.inj hvalue).1]

theorem rewritten_unquote (value : Text) : rewritten value (unquote value) = value := by
  cases h : isLiteral value with
  | true =>
    obtain ⟨mark, -, hvalue, hwritten⟩ := rewritten_of_isLiteral h
    rw [hwritten, ← hvalue]
  | false => rw [rewritten_of_not_isLiteral h, unquote, h, if_neg Bool.false_ne_true]

/-- Setting a value keeps as much of a clause as is longer than its trimmed value. -/
theorem Opens.setValue_append (h : Opens key front) (s new : Text) : setValue (front ++ s) new =
    front ++ (s.take (s.length - (trim s).length) ++ rewritten (trim s) new) := by
  have hle : (trim s).length ≤ s.length := (trim_sublist s).length_le
  have hkept : (front ++ s).take ((front ++ s).length - (trim s).length) =
      front ++ s.take (s.length - (trim s).length) := by
    rw [List.length_append, Nat.add_sub_assoc hle, List.take_length_add_append]
  unfold setValue
  dsimp only
  rw [h.clause_eq, hkept]
  cases trim s with
  | nil => simp [rewritten]
  | cons mark t => cases hliteral : isLiteral (mark :: t) <;> simp [rewritten, hliteral]

theorem Opens.setValue_trimmed (h : Opens key front) (htrim : trim value = value) (new : Text) :
    setValue (front ++ value) new = front ++ rewritten value new := by
  rw [h.setValue_append, htrim, Nat.sub_self, List.take_zero, List.nil_append]

/-- A plain value stands plain and as it was given where the old one stood, and as a literal just
when that was one. -/
theorem Opens.plain_rewritten {new : Text} (h : Opens key front) (htrim : trim value = value)
    (hplain : isPlainValue (front ++ value) new = true) :
    Plain (rewritten value new) ∧ isLiteral (rewritten value new) = isLiteral value ∧
      unquote (rewritten value new) = new ∧ '\n' ∉ rewritten value new := by
  unfold isPlainValue at hplain
  dsimp only at hplain
  rw [h.clause_eq, htrim] at hplain
  cases hliteral : isLiteral value with
  | true =>
    obtain ⟨mark, hmark, hvalue, hwritten⟩ := rewritten_of_isLiteral hliteral
    rw [hliteral, if_pos rfl, List.all_eq_true, hvalue] at hplain
    have hbody : ∀ c ∈ new, c ≠ mark ∧ c ≠ '\\' ∧ c ≠ '\n' := by
      intro c hc
      have := hplain c hc
      simp only [List.cons_append, List.head?_cons, Bool.and_eq_true, bne_iff_ne, ne_eq,
        Option.some.injEq] at this
      exact ⟨Ne.symm this.1.1, this.1.2, this.2⟩
    have hplain' : ∀ c ∈ new, c ≠ mark ∧ c ≠ '\\' := fun c hc => ⟨(hbody c hc).1, (hbody c hc).2.1⟩
    have hliteral' := isLiteral_of_body hmark hplain'
    rw [hwritten]
    refine ⟨.literal hmark hplain', hliteral', ?_, ?_⟩
    · rw [unquote, if_pos hliteral', List.dropLast_concat]
      rfl
    · have hlf : '\n' ≠ mark := by rcases isQuote_cases hmark with rfl | rfl <;> decide
      simp only [List.mem_append, List.mem_cons, List.not_mem_nil, or_false, not_or]
      exact ⟨⟨hlf, fun hmem => (hbody _ hmem).2.2 rfl⟩, hlf⟩
  | false =>
    rw [hliteral, if_neg Bool.false_ne_true] at hplain
    simp only [Bool.and_eq_true, bne_iff_ne, beq_iff_eq, List.all_eq_true,
      Bool.not_eq_true'] at hplain
    obtain ⟨⟨⟨hnew, heq⟩, htrim'⟩, hchars⟩ := hplain
    have hliteral' : isLiteral new = false := by
      cases new with
      | nil => rfl
      | cons c s => simp [isLiteral, (hchars c List.mem_cons_self).1.1]
    rw [rewritten_of_not_isLiteral hliteral]
    refine ⟨.bare hnew htrim' heq fun c hc => (hchars c hc).1, hliteral', ?_, ?_⟩
    · rw [unquote, hliteral', if_neg Bool.false_ne_true]
    · exact fun hmem => (hchars _ hmem).2 rfl

/-- A property whose value is set is found with that value. -/
theorem find?_setValue {raw new : Text} {found : Found Property}
    (h : find? (u ++ raw ++ v) = some found) (hstart : found.start = u.length)
    (hstop : found.stop = (u ++ raw).length) (hlf : '\n' ∉ u ++ raw ++ v)
    (hplain : isPlainValue raw new = true) : '\n' ∉ u ++ setValue raw new ++ v ∧
      find? (u ++ setValue raw new ++ v) =
        some ⟨u.length, (u ++ setValue raw new).length, ⟨found.value.key, new⟩⟩ := by
  obtain ⟨u', front, value, v', hline, hframes, -, htrim, hfound⟩ := find?_spec h
  rw [hfound] at hstart hstop
  rw [List.append_assoc u'] at hline
  rw [List.append_assoc u'] at hstop
  obtain ⟨huraw, rfl⟩ := List.append_inj hline hstop.symm
  obtain ⟨rfl, rfl⟩ := List.append_inj huraw hstart.symm
  obtain ⟨hplain', -, hunquote, hlf'⟩ := hframes.opens.plain_rewritten htrim hplain
  have hnolf : '\n' ∉ u ++ front ++ rewritten value new ++ v := by
    simp only [List.mem_append, not_or] at hlf ⊢
    exact ⟨⟨⟨hlf.1.1, hlf.1.2.1⟩, hlf'⟩, hlf.2⟩
  rw [hframes.opens.setValue_trimmed htrim, ← List.append_assoc]
  refine ⟨hnolf, ?_⟩
  rw [hframes.find? hplain' hnolf, hunquote]

/-! ## Setting a value twice -/

/-- Whether a value is written so that the next one finds it: as a literal just when the old value
is one, and with no blanks around it. -/
def keepsClause (raw value : Text) : Bool :=
  let clause := trim ((raw.dropWhile (· != '=')).drop 1)
  let written := rewritten clause value
  isLiteral written == isLiteral clause && trim written == written

/-- A value set over another one leaves what it would have left over the first just when the other
keeps the clause. -/
theorem Opens.setValue_setValue_iff (h : Opens key front) (htrim : trim value = value)
    (first second : Text) : setValue (setValue (front ++ value) first) second =
      setValue (front ++ value) second ↔ keepsClause (front ++ value) first = true := by
  rw [h.setValue_trimmed htrim, h.setValue_trimmed htrim, h.setValue_append,
    List.append_cancel_left_eq, keepsClause, h.clause_eq, htrim, Bool.and_eq_true, beq_iff_eq,
    beq_iff_eq]
  cases hliteral : isLiteral value with
  | true =>
    -- the marks are no blanks, so what counts is whether they still enclose one literal
    obtain ⟨mark, hmark, -, hwritten⟩ := rewritten_of_isLiteral hliteral
    have htrim' := trim_between (not_isBlank_of_isQuote hmark) first
    rw [hwritten, hwritten, htrim', Nat.sub_self, List.take_zero, List.nil_append,
      and_iff_left rfl]
    cases hliteral' : isLiteral (mark :: first ++ [mark]) with
    | true =>
      obtain ⟨mark', -, hvalue, hwritten'⟩ := rewritten_of_isLiteral hliteral'
      obtain rfl : mark = mark' := (List.cons.inj hvalue).1
      exact iff_of_true (hwritten' second) rfl
    | false =>
      rw [rewritten_of_not_isLiteral hliteral']
      refine iff_of_false (fun heq => ?_) Bool.false_ne_true
      have := congrArg List.length heq
      simp only [List.length_append, List.length_cons] at this
      omega
  | false =>
    rw [rewritten_of_not_isLiteral hliteral, rewritten_of_not_isLiteral hliteral]
    constructor
    · intro heq
      have hlength := congrArg List.length heq
      rw [List.length_append] at hlength
      cases hliteral' : isLiteral (trim first) with
      | true =>
        -- the marks of the first value would stand around the second one
        obtain ⟨mark, -, -, hwritten⟩ := rewritten_of_isLiteral hliteral'
        rw [hwritten] at hlength
        simp only [List.length_append, List.length_cons] at hlength
        omega
      | false =>
        rw [rewritten_of_not_isLiteral hliteral', List.length_take] at hlength
        have htrim' : trim first = first := (trim_sublist first).eq_of_length_le (by omega)
        exact ⟨by rw [← htrim', hliteral'], htrim'⟩
    · rintro ⟨hliteral', htrim'⟩
      rw [htrim', Nat.sub_self, List.take_zero, List.nil_append,
        rewritten_of_not_isLiteral hliteral']

/-! ## Lines without an assignment -/

theorem valueOf?_eq_none_iff {mark : Char} {t s : Text} (hmark : isQuote mark = true)
    (htrim : trimLeft (t ++ mark :: s) = t ++ mark :: s) (hlf : '\n' ∉ t ++ mark :: s) :
    valueOf? (t ++ mark :: s) = none ↔ startsWith ['/', '/'] t = true := by
  have hslash : mark ∉ ['/', '/'] := by rcases isQuote_cases hmark with rfl | rfl <;> decide
  have hclause : trimRight (t ++ mark :: s) = t ++ mark :: trimRight s :=
    trimRight_append_stop (not_isBlank_of_isQuote hmark) t s
  have hlf' : '\n' ∉ t ++ mark :: trimRight s := by
    rw [← hclause]
    exact fun hmem => hlf ((prefix_trimRight _).subset hmem)
  have hempty : trimRight (beforeComment (t ++ mark :: trimRight s)) = [] ↔
      startsWith ['/', '/'] t = true := by
    have hhead : ∀ p, p <+: t ++ mark :: trimRight s → (trimRight p = [] ↔ p = []) := by
      intro p hp
      cases p with
      | nil => exact iff_of_true rfl rfl
      | cons c p =>
        have hblank : isBlank c = false := by
          cases t with
          | nil =>
            rw [(List.cons_prefix_cons.1 hp).1]
            exact not_isBlank_of_isQuote hmark
          | cons d t =>
            rw [(List.cons_prefix_cons.1 hp).1]
            exact not_isBlank_of_trimLeft htrim
        have hne : trimRight (c :: p) = c :: trimRight p := trimRight_append_stop hblank [] p
        rw [hne]
        exact iff_of_false (List.cons_ne_nil _ _) (List.cons_ne_nil _ _)
    rw [hhead _ (prefix_beforeComment _), beforeComment_eq_nil_iff, startsWith_append_stop hslash]
    exact or_iff_right (List.append_ne_nil_of_right_ne_nil t (List.cons_ne_nil _ _))
  unfold valueOf?
  dsimp only
  rw [hclause, if_neg hlf', ← hempty]
  split
  · next e => simp [e]
  · next hne => simpa using hne

/-- Whether a line is an assignment shows in front of its first quoted part. -/
theorem find?_eq_none_of_stop {mark : Char} {s s' : Text} (hmark : isQuote mark = true)
    (h : find? (u ++ mark :: s) = none) (hlf : '\n' ∉ u ++ mark :: s)
    (hlf' : '\n' ∉ u ++ mark :: s') : find? (u ++ mark :: s') = none := by
  have hclause (t : Text) : trimLeft (u ++ mark :: t) = trimLeft u ++ mark :: t :=
    dropWhile_append_stop (not_isBlank_of_isQuote hmark) u t
  refine Option.eq_none_iff_forall_ne_some.2 fun found hfound => ?_
  rw [find?_eq, hclause] at h hfound
  obtain ⟨⟨key, rest⟩, hread, hvalue⟩ := Option.bind_eq_some_iff.1 hfound
  obtain ⟨t, ht⟩ := readAssignment?_append_stop hmark hread
  have hline (r : Text) (hr : '\n' ∉ u ++ mark :: r) : '\n' ∉ t ++ mark :: r := by
    obtain ⟨front, hfront, -⟩ := readAssignment?_spec (ht r).1
    rw [← hclause] at hfront
    intro hmem
    refine hr ((List.dropWhile_suffix isBlank).subset ?_)
    rw [show (u ++ mark :: r).dropWhile isBlank = _ from hfront]
    exact List.mem_append_right front hmem
  rw [(ht s').1, Option.some.injEq, Prod.mk.injEq] at hread
  rw [← hread.2] at hvalue
  rw [(ht s).1, Option.bind_some] at h
  by_cases hkey : key ∈ reservedKeys
  · simp [hkey] at hvalue
  · have hnone : valueOf? (t ++ mark :: s) = none := by
      rw [Option.eq_none_iff_forall_ne_some]
      simpa [hkey] using h
    rw [valueOf?_eq_none_iff hmark (ht s).2 (hline s hlf)] at hnone
    rw [(valueOf?_eq_none_iff hmark (ht s').2 (hline s' hlf')).2 hnone] at hvalue
    cases hvalue

end Property

end BuildScript
