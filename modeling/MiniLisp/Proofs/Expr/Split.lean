import MiniLisp.Proofs.Expr.Scan

/-!
# The only way to split a text

A text is split into tokens if it is these tokens in order with blanks around them and with a blank
between any two words (`Token.Split`). There is exactly one way to split it, and scanning finds it
(`Token.split_iff`): nothing is lost, no word is cut and no two words are joined. So a text may be
scanned in parts, wherever it is parted at a blank or next to a parenthesis.
-/

namespace MiniLisp

inductive IsParenthesis : Char → Prop where
  | opening : IsParenthesis '('
  | closing : IsParenthesis ')'

theorem IsParenthesis.not_isLetter {c : Char} (h : IsParenthesis c) : ¬ IsLetter c := by
  intro hc
  cases h with
  | opening => exact hc.notOpening rfl
  | closing => exact hc.notClosing rfl

/-- A character is a letter, a blank or a parenthesis. -/
theorem not_isLetter_iff {c : Char} : ¬ IsLetter c ↔ isBlank c = true ∨ IsParenthesis c := by
  constructor
  · intro h
    by_cases hblank : isBlank c = true
    · exact .inl hblank
    · by_cases hopening : c = '('
      · exact .inr (hopening ▸ .opening)
      · by_cases hclosing : c = ')'
        · exact .inr (hclosing ▸ .closing)
        · exact absurd ⟨Bool.eq_false_iff.mpr hblank, hopening, hclosing⟩ h
  · rintro (h | h) hc
    · rw [hc.notBlank] at h
      cases h
    · exact h.not_isLetter hc

namespace Token

/-- A parenthesis, or a word that is one. -/
inductive Proper : Token → Prop where
  | opening : Proper opening
  | closing : Proper closing
  | word {text : String} (h : IsWord text) : Proper (word text)

/-- A text may go on with `source`, the first of whose tokens are `tokens`, right behind the token
`t`: of two words the second one is behind a blank. -/
def Apart (t : Token) (tokens : List Token) (source : List Char) : Prop :=
  ∀ v w rest, t = word v → tokens = word w :: rest →
    ∃ c more, source = c :: more ∧ isBlank c = true

/-- The text is the tokens in order with any blanks around them, and with a blank between any two
words. -/
inductive Split : List Char → List Token → Prop where
  | nothing : Split [] []
  | blank {c : Char} {source : List Char} {tokens : List Token} (hc : isBlank c = true)
      (h : Split source tokens) : Split (c :: source) tokens
  | token {t : Token} {source : List Char} {tokens : List Token} (ht : t.Proper)
      (hapart : t.Apart tokens source) (h : Split source tokens) :
      Split (t.text.toList ++ source) (t :: tokens)

variable {source : List Char} {tokens : List Token} {c : Char}

theorem Proper.notBlank {t : Token} (h : t.Proper) : ∀ c ∈ t.text.toList, isBlank c = false := by
  cases h with
  | opening => exact List.forall_mem_singleton.mpr isBlank_opening
  | closing => exact List.forall_mem_singleton.mpr isBlank_closing
  | word h => exact fun c hc => (h.letters c hc).notBlank

section Scanning

@[simp] theorem scanFrom_blank (hc : isBlank c = true) (rest : List Char) :
    scanFrom [] (c :: rest) = scanFrom [] rest := by
  simp [scanFrom, hc, ofLetters]

/-- Behind the rest of a word a text is scanned by itself if it starts with no letter. -/
theorem scanFrom_append (letters front : List Char) {rest : List Char} (h : Stops rest) :
    scanFrom letters (front ++ rest) = scanFrom letters front ++ scanFrom [] rest := by
  induction front generalizing letters with
  | nil => exact scanFrom_of_stops letters h
  | cons c front ih =>
    rw [List.cons_append]
    by_cases hc : IsLetter c
    · rw [scanFrom_letter letters _ hc, scanFrom_letter letters _ hc, ih]
    · have hstops (more : List Char) : Stops (c :: more) := .character hc
      rw [scanFrom_of_stops letters (hstops _), scanFrom_of_stops letters (hstops _),
        List.append_assoc]
      congr 1
      rcases not_isLetter_iff.mp hc with hblank | hparen
      · rw [scanFrom_blank hblank, scanFrom_blank hblank, ih]
      · cases hparen with
        | opening => rw [scanFrom_opening, scanFrom_opening, ih, List.cons_append]
        | closing => rw [scanFrom_closing, scanFrom_closing, ih, List.cons_append]

/-- Texts may be parted in front of a parenthesis and behind one. -/
theorem scanFrom_parted {front rest : List Char}
    (h : (∃ c ∈ front.getLast?, IsParenthesis c) ∨ ∃ c ∈ rest.head?, IsParenthesis c) :
    scanFrom [] (front ++ rest) = scanFrom [] front ++ scanFrom [] rest := by
  rcases h with ⟨c, hlast, hc⟩ | ⟨c, hhead, hc⟩
  · obtain ⟨front, rfl⟩ := List.getLast?_eq_some_iff.mp hlast
    have hstops (more : List Char) : Stops (c :: more) := .character hc.not_isLetter
    rw [List.append_assoc, List.singleton_append, scanFrom_append [] front (hstops rest),
      scanFrom_append [] front (hstops []), List.append_assoc]
    cases hc with
    | opening => rw [scanFrom_opening, scanFrom_opening]; rfl
    | closing => rw [scanFrom_closing, scanFrom_closing]; rfl
  · obtain ⟨rest, rfl⟩ := List.head?_eq_some_iff.mp hhead
    exact scanFrom_append [] front (.character hc.not_isLetter)

end Scanning

section Splitting

/-- What is split behind a word goes on with no letter, or the word would go on too. -/
theorem Split.stops (h : Split source tokens) {v : String} (hapart : (word v).Apart tokens source) :
    Stops source := by
  cases h with
  | nothing => exact .nothing
  | blank hc => exact .character (not_isLetter_iff.mpr (.inl hc))
  | token ht =>
    cases ht with
    | opening => exact .character IsParenthesis.opening.not_isLetter
    | closing => exact .character IsParenthesis.closing.not_isLetter
    | word =>
      obtain ⟨c, more, hsource, hc⟩ := hapart v _ _ rfl rfl
      rw [hsource]
      exact .character (not_isLetter_iff.mpr (.inl hc))

theorem Split.scanFrom_eq (h : Split source tokens) : scanFrom [] source = tokens := by
  induction h with
  | nothing => rfl
  | blank hc _ ih => rw [scanFrom_blank hc, ih]
  | token ht hapart h ih =>
    cases ht with
    | opening => exact (scanFrom_opening _).trans (congrArg (opening :: ·) ih)
    | closing => exact (scanFrom_closing _).trans (congrArg (closing :: ·) ih)
    | word hword => exact (scanFrom_word hword (h.stops hapart)).trans (congrArg (_ :: ·) ih)

/-- In front of a split text may stand a word, unless the text starts with a letter. -/
theorem Split.ofLetters {letters : List Char} (hletters : ∀ c ∈ letters, IsLetter c)
    (h : Split source tokens) (hapart : ∀ v, (word v).Apart tokens source) :
    Split (letters.reverse ++ source) (ofLetters letters ++ tokens) := by
  cases letters with
  | nil => exact h
  | cons c letters =>
    have hword : IsWord (String.ofList (c :: letters).reverse) := by
      refine ⟨by simp, fun d hd => hletters d ?_⟩
      rwa [String.toList_ofList, List.mem_reverse] at hd
    have hsplit := Split.token (.word hword) (hapart _) h
    rwa [Token.text, String.toList_ofList] at hsplit

/-- Scanning on with the letters of an unfinished word splits the text with these letters. -/
theorem split_scanFrom {letters : List Char} (hletters : ∀ c ∈ letters, IsLetter c)
    (source : List Char) : Split (letters.reverse ++ source) (scanFrom letters source) := by
  induction source generalizing letters with
  | nil =>
    have hsplit := Split.ofLetters hletters .nothing fun _ _ _ _ _ h => by cases h
    rwa [List.append_nil (ofLetters letters)] at hsplit
  | cons c rest ih =>
    have hrest : Split rest (scanFrom [] rest) := @ih [] nofun
    by_cases hc : IsLetter c
    · have hsplit := ih (List.forall_mem_cons.mpr ⟨hc, hletters⟩)
      rwa [List.reverse_cons, List.append_assoc, ← scanFrom_letter letters rest hc] at hsplit
    · rw [scanFrom_of_stops letters (.character hc)]
      rcases not_isLetter_iff.mp hc with hblank | hparen
      · rw [scanFrom_blank hblank]
        exact .ofLetters hletters (.blank hblank hrest) fun _ _ _ _ _ _ => ⟨c, rest, rfl, hblank⟩
      · cases hparen with
        | opening =>
          have hsplit : Split ('(' :: rest) (opening :: scanFrom [] rest) :=
            .token .opening (fun _ _ _ h => by cases h) hrest
          rw [scanFrom_opening]
          exact .ofLetters hletters hsplit fun _ _ _ _ _ h => by cases h
        | closing =>
          have hsplit : Split (')' :: rest) (closing :: scanFrom [] rest) :=
            .token .closing (fun _ _ _ h => by cases h) hrest
          rw [scanFrom_closing]
          exact .ofLetters hletters hsplit fun _ _ _ _ _ h => by cases h

theorem split_iff : Split source tokens ↔ tokens = scanFrom [] source := by
  constructor
  · exact fun h => h.scanFrom_eq.symm
  · rintro rfl
    exact @split_scanFrom [] nofun source

theorem Split.proper (h : Split source tokens) : ∀ t ∈ tokens, t.Proper := by
  induction h with
  | nothing => exact nofun
  | blank _ _ ih => exact ih
  | token ht _ _ ih => exact List.forall_mem_cons.mpr ⟨ht, ih⟩

/-- The tokens are all of the text but its blanks. -/
theorem Split.text_eq (h : Split source tokens) :
    (tokens.flatMap fun t => t.text.toList) = source.filter fun c => !isBlank c := by
  induction h with
  | nothing => rfl
  | blank hc _ ih => rw [List.filter_cons_of_neg (by simp [hc]), ih]
  | token ht _ _ ih =>
    have hletters := fun c hc => congrArg Bool.not (ht.notBlank c hc)
    rw [List.flatMap_cons, List.filter_append, List.filter_eq_self.mpr hletters, ih]

end Splitting

/-- Scanning loses nothing of a text but its blanks, finds parentheses and words only, and cuts the
text in the only way in which two words are never next to each other without a blank between them.
So parts of a text can be scanned by themselves if there is a blank between them, or a parenthesis
at the end of the one or at the start of the other. -/
theorem scan_is_the_only_split (source : String) :
    ((scan source).flatMap fun t => t.text.toList) =
      (source.toList.filter fun c => !isBlank c) ∧
    (∀ t ∈ scan source, t.Proper) ∧
    (∀ tokens, Split source.toList tokens ↔ tokens = scan source) ∧
    ∀ other : String,
      (∀ c, isBlank c = true →
        scan (source ++ .singleton c ++ other) = scan source ++ scan other) ∧
      ((∃ c ∈ source.toList.getLast?, IsParenthesis c) ∨
          (∃ c ∈ other.toList.head?, IsParenthesis c) →
        scan (source ++ other) = scan source ++ scan other) := by
  have hsplit : Split source.toList (scan source) := split_iff.mpr rfl
  refine ⟨hsplit.text_eq, hsplit.proper, fun tokens => split_iff, fun other => ⟨?_, ?_⟩⟩
  · intro c hc
    have hstops : Stops (c :: other.toList) := .character (not_isLetter_iff.mpr (.inl hc))
    rw [scan, String.toList_append, String.toList_append, String.toList_singleton,
      List.append_assoc, List.singleton_append, scanFrom_append [] _ hstops, scanFrom_blank hc]
    rfl
  · intro h
    rw [scan, String.toList_append, scanFrom_parted h]
    rfl

/-- A text of a word, a parenthesis and a word, in front of other texts. -/
theorem scan_is_the_only_split_parted :
    scan ("a(b" ++ .singleton '\u3000' ++ "c") = scan "a(b" ++ scan "c" ∧
    scan ("a(" ++ "c") = scan "a(" ++ scan "c" ∧
    scan ("b" ++ ")c") = scan "b" ++ scan ")c" ∧
    scan ("b" ++ "c") ≠ scan "b" ++ scan "c" :=
  ⟨((scan_is_the_only_split "a(b").2.2.2 "c").1 '\u3000' (by decide),
    ((scan_is_the_only_split "a(").2.2.2 "c").2 (.inl ⟨'(', rfl, .opening⟩),
    ((scan_is_the_only_split "b").2.2.2 ")c").2 (.inr ⟨')', rfl, .closing⟩), by decide⟩

end Token

end MiniLisp
