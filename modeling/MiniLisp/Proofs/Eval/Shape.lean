import MiniLisp.Eval.Form

/-!
# The shapes of forms

A list is a special form only if it is written exactly as that form is; everything else that is a
form is a call. `Form.shape_of_ofList` says so for each form, for proofs that follow evaluation.
Parameter lists are lists of distinct symbols, and the first element that makes a list be none is
what is wrong with it (`Form.params_eq_ok_iff`, `Form.params_eq_error_iff`).
-/

namespace MiniLisp

namespace Form

/-- How the lists are written that are a given form. -/
inductive Shape : List Expr → Form → Prop where
  | quote (datum : Expr) : Shape [.symbol "quote", datum] (quote datum)
  | cond (test yes no : Expr) : Shape [.symbol "if", test, yes, no] (cond test yes no)
  | define (name : String) (value : Expr) :
      Shape [.symbol "define", .symbol name, value] (define name value)
  | assign (name : String) (value : Expr) :
      Shape [.symbol "set!", .symbol name, value] (assign name value)
  | lambda {list body : Expr} {names : List String} (h : params list = .ok names) :
      Shape [.symbol "lambda", list, body] (lambda names body)
  | call {head : Expr} (operands : List Expr)
      (h : head.symbol?.bind Keyword.ofName? = none) : Shape (head :: operands) (call head operands)

theorem eq_symbol_of_symbol? {e : Expr} {name : String} (h : e.symbol? = some name) :
    e = .symbol name := by
  cases e with
  | symbol =>
    cases h
    rfl
  | _ => cases h

theorem eq_symbol_of_target {keyword name : String} {e : Expr} (h : target keyword e = .ok name) :
    e = .symbol name := by
  unfold target at h
  split at h
  · rename_i hname
    cases h
    exact eq_symbol_of_symbol? hname
  · cases h

theorem eq_ok_of_map {α β : Type} {r : Except Error α} {g : α → β} {b : β}
    (h : r.map g = .ok b) : ∃ a, r = .ok a ∧ g a = b := by
  cases r with
  | error => cases h
  | ok a =>
    cases h
    exact ⟨a, rfl, rfl⟩

section Parameters

/-- What is wrong with an element of a parameter list that comes after the names in `before`. -/
inductive Fault (before : List String) : Expr → Error → Prop where
  | notSymbol {e : Expr} (h : e.symbol? = none) :
      Fault before e (.type (.parameterNotSymbol e.text) none)
  | repeated {x : String} (h : x ∈ before) :
      Fault before (.symbol x) (.eval (.duplicateParameter x) none)

variable {seen names : List String} {items : List Expr} {err : Error}

theorem paramsFrom_cons_symbol {x : String} (hx : x ∉ seen) :
    paramsFrom seen (.symbol x :: items) = (paramsFrom (x :: seen) items).map (x :: ·) := by
  rw [paramsFrom, Expr.symbol?]
  exact if_neg hx

theorem paramsFrom_cons_fault {e : Expr} (h : Fault seen e err) :
    paramsFrom seen (e :: items) = .error err := by
  cases h with
  | notSymbol h => rw [paramsFrom, h]
  | repeated h =>
    rw [paramsFrom, Expr.symbol?]
    exact if_pos h

/-- An element is a new name, or something is wrong with it. -/
theorem symbol_or_fault (seen : List String) (e : Expr) :
    (∃ x, e = .symbol x ∧ x ∉ seen) ∨ ∃ err, Fault seen e err := by
  cases hx : e.symbol? with
  | none => exact .inr ⟨_, .notSymbol hx⟩
  | some x =>
    obtain rfl := eq_symbol_of_symbol? hx
    by_cases hseen : x ∈ seen
    · exact .inr ⟨_, .repeated hseen⟩
    · exact .inl ⟨x, rfl, hseen⟩

/-- Of symbols that are pairwise different and new, the names are read. -/
theorem paramsFrom_map_symbol_append (hnames : names.Nodup) (hseen : ∀ x ∈ names, x ∉ seen) :
    paramsFrom seen (names.map .symbol ++ items) =
      (paramsFrom (names.reverse ++ seen) items).map (names ++ ·) := by
  induction names generalizing seen with
  | nil => cases h : paramsFrom seen items <;> simp [h, Except.map]
  | cons x names ih =>
    rw [List.nodup_cons] at hnames
    have hnew : ∀ y ∈ names, y ∉ x :: seen := by
      intro y hy
      rw [List.mem_cons, not_or]
      exact ⟨fun hyx => hnames.1 (hyx ▸ hy), hseen y (.tail _ hy)⟩
    rw [List.map_cons, List.cons_append, paramsFrom_cons_symbol (hseen x (.head _)),
      ih hnames.2 hnew, List.reverse_cons, List.append_assoc, List.singleton_append]
    cases paramsFrom (names.reverse ++ x :: seen) items <;> rfl

/-- Elements are new names up to the end, or up to the first that something is wrong with. -/
theorem names_or_fault (seen : List String) (items : List Expr) :
    ∃ names : List String, names.Nodup ∧ (∀ x ∈ names, x ∉ seen) ∧
      (items = names.map .symbol ∨ ∃ e rest err,
        items = names.map .symbol ++ e :: rest ∧ Fault (names.reverse ++ seen) e err) := by
  induction items generalizing seen with
  | nil => exact ⟨[], .nil, nofun, .inl rfl⟩
  | cons e items ih =>
    rcases symbol_or_fault seen e with ⟨x, rfl, hx⟩ | ⟨err, herr⟩
    · obtain ⟨names, hnodup, hnew, h⟩ := ih (x :: seen)
      refine ⟨x :: names, List.nodup_cons.mpr ⟨fun hmem => hnew x hmem (.head _), hnodup⟩,
        List.forall_mem_cons.mpr ⟨hx, fun y hy hmem => hnew y hy (.tail _ hmem)⟩, ?_⟩
      rcases h with rfl | ⟨e, rest, err, rfl, herr⟩
      · exact .inl rfl
      · refine .inr ⟨e, rest, err, rfl, ?_⟩
        rwa [List.reverse_cons, List.append_assoc, List.singleton_append]
    · exact ⟨[], .nil, nofun, .inr ⟨e, items, err, rfl, herr⟩⟩

theorem Fault.of_subset {before : List String} {e : Expr} (h : Fault seen e err)
    (hsubset : seen ⊆ before) : Fault before e err := by
  cases h with
  | notSymbol h => exact .notSymbol h
  | repeated h => exact .repeated (hsubset h)

/-- The parameters are the names of a list of symbols that are pairwise different. -/
theorem params_map_symbol (h : names.Nodup) : params (.list (names.map .symbol)) = .ok names := by
  rw [params, ← List.append_nil (names.map Expr.symbol),
    paramsFrom_map_symbol_append h fun x _ => List.not_mem_nil, paramsFrom, Except.map,
    List.append_nil]

/-- A parameter list is refused for the first of its elements that something is wrong with. -/
theorem params_append_fault (h : names.Nodup) {e : Expr} (he : Fault names e err)
    (rest : List Expr) : params (.list (names.map .symbol ++ e :: rest)) = .error err := by
  have hfault : Fault (names.reverse ++ []) e err := he.of_subset fun x hx => by simpa using hx
  rw [params, paramsFrom_map_symbol_append h fun x _ => List.not_mem_nil,
    paramsFrom_cons_fault hfault, Except.map]

theorem params_list_cases (items : List Expr) : ∃ names : List String, names.Nodup ∧
    (items = names.map .symbol ∨
      ∃ e rest err, items = names.map .symbol ++ e :: rest ∧ Fault names e err) := by
  obtain ⟨names, hnodup, -, h⟩ := names_or_fault [] items
  refine ⟨names, hnodup, h.imp_right ?_⟩
  rintro ⟨e, rest, err, hitems, herr⟩
  exact ⟨e, rest, err, hitems, herr.of_subset fun x hx => by simpa using hx⟩

theorem params_eq_ok_iff {e : Expr} :
    params e = .ok names ↔ e = .list (names.map .symbol) ∧ names.Nodup := by
  refine ⟨fun h => ?_, fun ⟨he, hnames⟩ => he ▸ params_map_symbol hnames⟩
  cases e with
  | list items =>
    obtain ⟨names', hnodup, rfl | ⟨e, rest, err, rfl, herr⟩⟩ := params_list_cases items
    · rw [params_map_symbol hnodup] at h
      cases h
      exact ⟨rfl, hnodup⟩
    · rw [params_append_fault hnodup herr] at h
      cases h
  | _ => cases h

theorem params_eq_error_iff : params (.list items) = .error err ↔
    ∃ names e rest, items = names.map .symbol ++ e :: rest ∧ names.Nodup ∧ Fault names e err := by
  constructor
  · intro h
    obtain ⟨names, hnodup, rfl | ⟨e, rest, err', rfl, herr⟩⟩ := params_list_cases items
    · rw [params_map_symbol hnodup] at h
      cases h
    · rw [params_append_fault hnodup herr] at h
      cases h
      exact ⟨names, e, rest, rfl, hnodup, herr⟩
  · rintro ⟨names, e, rest, rfl, hnodup, herr⟩
    exact params_append_fault hnodup herr rest

end Parameters

/-- A name that is a keyword is the keyword as it is written. -/
theorem name_of_keyword {name : String} {keyword : Keyword}
    (h : Keyword.ofName? name = some keyword) : name = match keyword with
      | .quote => "quote"
      | .cond => "if"
      | .define => "define"
      | .assign => "set!"
      | .lambda => "lambda" := by
  unfold Keyword.ofName? at h
  split at h <;> cases h <;> rfl

theorem shape_of_ofList {items : List Expr} {x : Form} (h : ofList items = .ok x) :
    Shape items x := by
  cases items with
  | nil => cases h
  | cons head operands =>
    simp only [ofList] at h
    split at h
    · rename_i hnone
      cases h
      exact .call operands hnone
    · rename_i keyword hsome
      obtain ⟨name, hname, hkeyword⟩ := Option.bind_eq_some_iff.mp hsome
      have hhead := eq_symbol_of_symbol? hname
      rw [name_of_keyword hkeyword] at hhead
      subst hhead
      split at h
      · cases h
        exact .quote _
      · cases h
        exact .cond _ _ _
      · obtain ⟨name, hname, rfl⟩ := eq_ok_of_map h
        rw [eq_symbol_of_target hname]
        exact .define _ _
      · obtain ⟨name, hname, rfl⟩ := eq_ok_of_map h
        rw [eq_symbol_of_target hname]
        exact .assign _ _
      · obtain ⟨names, hnames, rfl⟩ := eq_ok_of_map h
        exact .lambda hnames
      · cases h

/-- What evaluating a form evaluates in the same frame. -/
def parts : Form → List Expr
  | quote _ => []
  | cond test yes no => [test, yes, no]
  | define _ value => [value]
  | assign _ value => [value]
  | lambda _ _ => []
  | call head operands => head :: operands

theorem Shape.mem_of_mem_parts {items : List Expr} {x : Form} (h : Shape items x) {e : Expr}
    (he : e ∈ x.parts) : e ∈ items := by
  cases h with
  | quote => cases he
  | cond => exact .tail _ he
  | define => exact .tail _ (.tail _ he)
  | assign => exact .tail _ (.tail _ he)
  | lambda => cases he
  | call => exact he

end Form

end MiniLisp
