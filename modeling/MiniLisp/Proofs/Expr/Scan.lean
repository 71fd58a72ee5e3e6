import MiniLisp.Proofs.Expr.Tree

/-!
# Scanning written trees

A tree is written as its words, with a pair of parentheses around every list and single spaces
between items. Scanning that text cuts it at exactly the places where it was put together
(`scan_text`), as long as every word is one (`IsWord`). Scanning any text yields such words only
(`isWord_of_mem_scan`).
-/

namespace MiniLisp

/-- The characters that words are made of. -/
structure IsLetter (c : Char) : Prop where
  notBlank : isBlank c = false
  notOpening : c ≠ '('
  notClosing : c ≠ ')'

structure IsWord (text : String) : Prop where
  nonempty : text.toList ≠ []
  letters : ∀ c ∈ text.toList, IsLetter c

/-- What may follow a word without being read as a part of it. -/
inductive Stops : List Char → Prop where
  | nothing : Stops []
  | character {c : Char} {rest : List Char} (h : ¬ IsLetter c) : Stops (c :: rest)

theorem stops_space (rest : List Char) : Stops (' ' :: rest) :=
  .character fun h => absurd h.notBlank (by simp)

theorem stops_closing (rest : List Char) : Stops (')' :: rest) :=
  .character fun h => h.notClosing rfl

namespace Token

theorem scanFrom_letter (letters rest : List Char) {c : Char} (h : IsLetter c) :
    scanFrom letters (c :: rest) = scanFrom (c :: letters) rest := by
  simp [scanFrom, h.notBlank, h.notOpening, h.notClosing]

theorem scanFrom_letters (word letters rest : List Char) (h : ∀ c ∈ word, IsLetter c) :
    scanFrom letters (word ++ rest) = scanFrom (word.reverse ++ letters) rest := by
  induction word generalizing letters with
  | nil => rfl
  | cons c word ih =>
    have hrest := ih (c :: letters) fun c' hc' => h c' (.tail _ hc')
    rw [List.cons_append, scanFrom_letter letters _ (h c (.head _)), hrest]
    simp

/-- An unfinished word ends where no letter follows. -/
theorem scanFrom_of_stops (letters : List Char) {rest : List Char} (h : Stops rest) :
    scanFrom letters rest = ofLetters letters ++ scanFrom [] rest := by
  cases h with
  | nothing => simp [scanFrom, ofLetters]
  | @character c rest h =>
    by_cases hblank : isBlank c = true
    · simp [scanFrom, hblank, ofLetters]
    · by_cases hopening : c = '('
      · simp [scanFrom, hopening, ofLetters]
      · by_cases hclosing : c = ')'
        · simp [scanFrom, hclosing, ofLetters]
        · exact absurd ⟨by simpa using hblank, hopening, hclosing⟩ h

theorem ofLetters_reverse {text : String} (h : text.toList ≠ []) :
    ofLetters text.toList.reverse = [.word text] := by
  cases hletters : text.toList.reverse with
  | nil => exact absurd (List.reverse_eq_nil_iff.mp hletters) h
  | cons c letters =>
    have hback : (c :: letters).reverse = text.toList := by rw [← hletters, List.reverse_reverse]
    rw [ofLetters, hback, String.ofList_toList]
    simp

theorem scanFrom_word {text : String} (h : IsWord text) {rest : List Char} (hr : Stops rest) :
    scanFrom [] (text.toList ++ rest) = .word text :: scanFrom [] rest := by
  rw [scanFrom_letters text.toList [] rest h.letters, scanFrom_of_stops _ hr, List.append_nil,
    ofLetters_reverse h.nonempty, List.singleton_append]

@[simp] theorem scanFrom_space (rest : List Char) :
    scanFrom [] (' ' :: rest) = scanFrom [] rest := by
  simp [scanFrom, ofLetters]

@[simp] theorem scanFrom_opening (rest : List Char) :
    scanFrom [] ('(' :: rest) = .opening :: scanFrom [] rest := by
  simp [scanFrom, ofLetters]

@[simp] theorem scanFrom_closing (rest : List Char) :
    scanFrom [] (')' :: rest) = .closing :: scanFrom [] rest := by
  simp [scanFrom, ofLetters]

theorem isWord_of_mem_ofLetters {letters : List Char} (h : ∀ c ∈ letters, IsLetter c)
    {text : String} (ht : .word text ∈ ofLetters letters) : IsWord text := by
  cases letters with
  | nil => cases ht
  | cons c letters =>
    simp only [ofLetters, List.mem_singleton, Token.word.injEq] at ht
    subst ht
    refine ⟨by simp, fun c' hc' => h c' ?_⟩
    rwa [String.toList_ofList, List.mem_reverse] at hc'

theorem isWord_of_mem_scanFrom {letters : List Char} (h : ∀ c ∈ letters, IsLetter c)
    {source : List Char} {text : String} (ht : .word text ∈ scanFrom letters source) :
    IsWord text := by
  induction source generalizing letters with
  | nil => exact isWord_of_mem_ofLetters h ht
  | cons c rest ih =>
    have hnone : ∀ c ∈ ([] : List Char), IsLetter c := fun _ hc => by cases hc
    by_cases hc : IsLetter c
    · rw [scanFrom_letter letters rest hc] at ht
      refine ih (fun c' hc' => ?_) ht
      rcases List.mem_cons.mp hc' with rfl | hc'
      · exact hc
      · exact h c' hc'
    · rw [scanFrom_of_stops letters (.character hc), List.mem_append] at ht
      rcases ht with ht | ht
      · exact isWord_of_mem_ofLetters h ht
      · by_cases hblank : isBlank c = true
        · exact ih hnone (by simpa [scanFrom, hblank, ofLetters] using ht)
        · by_cases hopening : c = '('
          · exact ih hnone (by simpa [hopening] using ht)
          · by_cases hclosing : c = ')'
            · exact ih hnone (by simpa [hclosing] using ht)
            · exact absurd ⟨by simpa using hblank, hopening, hclosing⟩ hc

/-- Scanning yields words that are words. -/
theorem isWord_of_mem_scan {source text : String} (h : .word text ∈ scan source) : IsWord text :=
  isWord_of_mem_scanFrom (fun _ hc => by cases hc) h

end Token

namespace Tree

mutual

def text : Tree → String
  | word text => text
  | list items => "(" ++ " ".intercalate (texts items) ++ ")"

def texts : List Tree → List String
  | [] => []
  | t :: rest => text t :: texts rest

end

mutual

theorem scanFrom_text : ∀ t : Tree, (∀ w, .word w ∈ t.tokens → IsWord w) → ∀ {rest : List Char},
    Stops rest → Token.scanFrom [] (t.text.toList ++ rest) = t.tokens ++ Token.scanFrom [] rest
  | word w, h, rest, hr => Token.scanFrom_word (h w (by simp [tokens])) hr
  | list items, h, rest, _ => by
    have hitems : ∀ w, .word w ∈ tokensAll items → IsWord w := fun w hw =>
      h w (by simp [tokens, hw])
    have hinner := scanFrom_texts items hitems rest
    simpa [text, tokens] using hinner

/-- The items of a list, up to where it is closed. -/
theorem scanFrom_texts : ∀ items : List Tree, (∀ w, .word w ∈ tokensAll items → IsWord w) →
    ∀ rest : List Char,
    Token.scanFrom [] ((" ".intercalate (texts items)).toList ++ ')' :: rest) =
      tokensAll items ++ .closing :: Token.scanFrom [] rest
  | [], _, rest => by simp [texts, tokensAll]
  | [t], h, rest => by
    have hlast := scanFrom_text t (fun w hw => h w (by simp [tokensAll, hw])) (stops_closing rest)
    simpa [texts, tokensAll] using hlast
  | t :: u :: others, h, rest => by
    have hrest := scanFrom_texts (u :: others)
      (fun w hw => h w (List.mem_append_right _ hw)) rest
    have hfirst := scanFrom_text t (fun w hw => h w (List.mem_append_left _ hw))
      (stops_space ((" ".intercalate (texts (u :: others))).toList ++ ')' :: rest))
    rw [Token.scanFrom_space, hrest] at hfirst
    simpa [texts, tokensAll] using hfirst

end

/-- The text of a tree is scanned into the tokens of the tree. -/
theorem scan_text {t : Tree} (h : ∀ w, .word w ∈ t.tokens → IsWord w) :
    Token.scan t.text = t.tokens := by
  have hscan := scanFrom_text t h Stops.nothing
  simpa [Token.scan, Token.scanFrom, Token.ofLetters] using hscan

end Tree

end MiniLisp
