import Augment.Proofs.Source.Listing
import Augment.Proofs.Source.Shown

/-!
# Source text is unambiguous

Trees that are printed alike look alike: the tokens of a tree determine all that its source text
shows (`CompilationUnit.source_eq_source_iff`).

The argument follows the grammar from left to right.  Each lemma is about one part of a listing and
whatever comes after it (`Unambiguous`): if the same tokens can be read as one such part and
something else, and as another such part and something else, then the parts look alike and the rest
is the same.  A list of parts can be read part by part if it can be told where it ends
(`Unambiguous.flatMap`).
-/

namespace Augment

/-! ### Parts and lists of parts -/

/-- Two parts can be told apart by their tokens, or look alike, whatever may follow them; and what
follows them is told from them. -/
def Unambiguous {α β τ : Type} (follows : List τ → Prop) (listing : α → List τ) (view : α → β)
    (item item' : α) : Prop :=
  ∀ r r', follows r → follows r' → listing item ++ r = listing item' ++ r' →
    view item = view item' ∧ r = r'

section Lists

variable {α β τ : Type} {listing : α → List τ} {view : α → β} {follows : List τ → Prop}
  {items items' : List α} {rest rest' : List τ}

/-- **Lists of parts are read part by part.** A part is followed by another one or by the end of the
list, and a list ends where no part can be read. -/
theorem Unambiguous.flatMap
    (each : ∀ item ∈ items, ∀ item' ∈ items', Unambiguous follows listing view item item')
    (next : ∀ item r, follows (listing item ++ r)) (stop : follows rest) (stop' : follows rest')
    (ends : ∀ item ∈ items', ∀ r, listing item ++ r ≠ rest)
    (ends' : ∀ item ∈ items, ∀ r, listing item ++ r ≠ rest')
    (same : items.flatMap listing ++ rest = items'.flatMap listing ++ rest') :
    items.map view = items'.map view ∧ rest = rest' := by
  -- after a part comes another part or what follows the list
  have tail : ∀ (items : List α) {rest}, follows rest →
      follows (items.flatMap listing ++ rest) := by
    intro items rest stop
    cases items with
    | nil => exact stop
    | cons item items =>
      rw [List.flatMap_cons, List.append_assoc]
      exact next item _
  induction items generalizing items' with
  | nil =>
    cases items' with
    | nil => exact ⟨rfl, same⟩
    | cons item' items' =>
      rw [List.flatMap_cons, List.append_assoc] at same
      exact absurd same.symm (ends item' List.mem_cons_self _)
  | cons item items ih =>
    cases items' with
    | nil =>
      rw [List.flatMap_cons, List.append_assoc] at same
      exact absurd same (ends' item List.mem_cons_self _)
    | cons item' items' =>
      rw [List.flatMap_cons, List.flatMap_cons, List.append_assoc, List.append_assoc] at same
      obtain ⟨first, later⟩ := each item List.mem_cons_self item' List.mem_cons_self _ _
        (tail items stop) (tail items' stop') same
      obtain ⟨others, end'⟩ := ih
        (fun item hi item' hi' => each item (List.mem_cons_of_mem _ hi) item'
          (List.mem_cons_of_mem _ hi'))
        (fun item hi => ends item (List.mem_cons_of_mem _ hi))
        (fun item hi => ends' item (List.mem_cons_of_mem _ hi)) later
      rw [List.map_cons, List.map_cons, first, others]
      exact ⟨rfl, end'⟩

/-- What comes before the first element of some sort is determined. -/
theorem append_cons_cancel {p : τ → Bool} {x x' : τ} {left left' : List τ}
    (none : ∀ y ∈ left, p y = false) (none' : ∀ y ∈ left', p y = false) (hx : p x) (hx' : p x')
    (same : left ++ x :: rest = left' ++ x' :: rest') :
    left = left' ∧ x = x' ∧ rest = rest' := by
  induction left generalizing left' with
  | nil =>
    cases left' with
    | nil => exact ⟨rfl, List.cons.inj same⟩
    | cons y left' =>
      obtain ⟨first, -⟩ := List.cons.inj same
      rw [first, none' y List.mem_cons_self] at hx
      cases hx
  | cons y left ih =>
    rw [List.forall_mem_cons] at none
    cases left' with
    | nil =>
      obtain ⟨first, -⟩ := List.cons.inj same
      rw [← first, none.1] at hx'
      cases hx'
    | cons z left' =>
      rw [List.forall_mem_cons] at none'
      obtain ⟨first, later⟩ := List.cons.inj same
      obtain ⟨others, end'⟩ := ih none.2 none'.2 later
      rw [first, others]
      exact ⟨rfl, end'⟩

end Lists

/-- **Parts with signs between them** are read part by part. -/
theorem Unambiguous.separatedBy {α β : Type} {listing : α → List Token} {view : α → β}
    {follows : List Token → Prop} {items items' : List α} {c : Char} {rest rest' : List Token}
    (each : ∀ item ∈ items, ∀ item' ∈ items', Unambiguous follows listing view item item')
    (next : ∀ r, follows (.sign c :: r)) (stop : follows rest) (stop' : follows rest')
    (ends : rest.head? ≠ some (.sign c)) (ends' : rest'.head? ≠ some (.sign c))
    (starts : ∀ item ∈ items', ∀ r, listing item ++ r ≠ rest)
    (starts' : ∀ item ∈ items, ∀ r, listing item ++ r ≠ rest')
    (same : separatedBy c listing items ++ rest = Augment.separatedBy c listing items' ++ rest') :
    items.map view = items'.map view ∧ rest = rest' := by
  cases items with
  | nil =>
    cases items' with
    | nil => exact ⟨rfl, same⟩
    | cons item' items' =>
      have first : rest = listing item' ++ _ := same.trans (List.append_assoc ..)
      exact absurd first.symm (starts item' List.mem_cons_self _)
  | cons item items =>
    cases items' with
    | nil =>
      have first : listing item ++ _ = rest' := (List.append_assoc ..).symm.trans same
      exact absurd first (starts' item List.mem_cons_self _)
    | cons item' items' =>
      have tail : ∀ (items : List α) {rest}, follows rest →
          follows ((items.flatMap fun next => .sign c :: listing next) ++ rest) := by
        intro items rest stop
        cases items with
        | nil => exact stop
        | cons item items => exact next _
      rw [Augment.separatedBy, Augment.separatedBy, List.append_assoc, List.append_assoc] at same
      obtain ⟨first, later⟩ := each item List.mem_cons_self item' List.mem_cons_self _ _
        (tail items stop) (tail items' stop') same
      have signed : ∀ item ∈ items, ∀ item' ∈ items',
          Unambiguous follows (fun next => .sign c :: listing next) view item item' := by
        intro item hi item' hi' r r' hr hr' same
        exact each item (List.mem_cons_of_mem _ hi) item' (List.mem_cons_of_mem _ hi') r r' hr hr'
          (List.cons.inj same).2
      obtain ⟨others, end'⟩ := Unambiguous.flatMap signed (fun _ _ => next _) stop stop'
        (fun _ _ _ h => ends (h ▸ rfl)) (fun _ _ _ h => ends' (h ▸ rfl)) later
      rw [List.map_cons, List.map_cons, first, others]
      exact ⟨rfl, end'⟩

/-! ### Words -/

/-- Whether a token is a sign. -/
def Token.isSign : Token → Bool
  | word _ => false
  | sign _ => true

namespace Names

variable {names : Names} {s t : Symbol}

theorem Plain.word_inj (hs : names.Plain s) (ht : names.Plain t)
    (same : names.word s = names.word t) : s = t := by
  injection same with spelling
  exact display_inj hs.knows ht.knows (String.toList_inj.mp spelling)

theorem Plain.word_ne_keyword (hs : names.Plain s) {word : String} (h : word ∈ reservedWords) :
    names.word s ≠ .keyword word := by
  intro same
  injection same with spelling
  have reserved : names.display s ∈ reservedWords := String.toList_inj.mp spelling ▸ h
  exact hs.not_reserved reserved

end Names

variable {names : Names}

theorem TypeRef.isSign_token (type : TypeRef Symbol) : (type.token names).isSign = false := by
  cases type <;> rfl

theorem TypeRef.token_inj {type type' : TypeRef Symbol} (plain : ∀ n ∈ type.names, names.Plain n)
    (plain' : ∀ n ∈ type'.names, names.Plain n) (same : type.token names = type'.token names) :
    type = type' := by
  have void : "void" ∈ reservedWords := by decide
  cases type with
  | void =>
    cases type' with
    | void => rfl
    | named name' =>
      exact absurd same.symm ((plain' name' (List.mem_singleton_self _)).word_ne_keyword void)
  | named name =>
    have here := plain name (List.mem_singleton_self _)
    cases type' with
    | void => exact absurd same (here.word_ne_keyword void)
    | named name' =>
      rw [here.word_inj (plain' name' (List.mem_singleton_self _)) same]

/-! ### Expressions -/

namespace Path

/-- The names in a path. -/
def all (path : Path Symbol) : List Symbol :=
  path.root.toList ++ path.names

/-- The word that a path starts with. -/
def rootToken (names : Names) (path : Path Symbol) : Token :=
  path.root.elim (.keyword "this") names.word

/-- The tokens of a path. -/
def tokens (names : Names) (path : Path Symbol) : List Token :=
  path.rootToken names :: path.names.flatMap fun name => [.sign '.', names.word name]

theorem rootToken_inj {path path' : Path Symbol} (plain : ∀ n ∈ path.all, names.Plain n)
    (plain' : ∀ n ∈ path'.all, names.Plain n)
    (same : path.rootToken names = path'.rootToken names) : path.root = path'.root := by
  obtain ⟨root, selected⟩ := path
  obtain ⟨root', selected'⟩ := path'
  have this : "this" ∈ reservedWords := by decide
  cases root with
  | none =>
    cases root' with
    | none => rfl
    | some name' =>
      exact absurd same.symm ((plain' name' List.mem_cons_self).word_ne_keyword this)
  | some name =>
    have here := plain name List.mem_cons_self
    cases root' with
    | none => exact absurd same (here.word_ne_keyword this)
    | some name' =>
      exact congrArg some (here.word_inj (plain' name' List.mem_cons_self) same)

/-- **A path ends where no dot follows.** -/
theorem unambiguous {path path' : Path Symbol} (plain : ∀ n ∈ path.all, names.Plain n)
    (plain' : ∀ n ∈ path'.all, names.Plain n) :
    Unambiguous (fun r => r.head? ≠ some (.sign '.')) (tokens names) (fun path => path)
      path path' := by
  intro r r' hr hr' same
  obtain ⟨first, later⟩ := List.cons.inj same
  obtain ⟨root, selected⟩ := path
  obtain ⟨root', selected'⟩ := path'
  obtain rfl : root = root' := rootToken_inj plain plain' first
  rw [all, List.forall_mem_append] at plain plain'
  have dotted : ∀ name ∈ selected, ∀ name' ∈ selected',
      Unambiguous (fun _ => True) (fun name => [.sign '.', names.word name]) (fun name => name)
        name name' := by
    intro name hn name' hn' r r' _ _ same
    obtain ⟨word, rest⟩ := List.cons.inj (List.cons.inj same).2
    exact ⟨(plain.2 name hn).word_inj (plain'.2 name' hn') word, rest⟩
  have ends : ∀ (name : Symbol) (s r : List Token), r.head? ≠ some (.sign '.') →
      [.sign '.', names.word name] ++ s ≠ r := by
    rintro name s r hr rfl
    exact hr rfl
  obtain ⟨same, rest⟩ := Unambiguous.flatMap dotted (fun _ _ => trivial) trivial trivial
    (fun name _ s => ends name s r hr) (fun name _ s => ends name s r' hr') later
  rw [List.map_id', List.map_id'] at same
  rw [same]
  exact ⟨rfl, rest⟩

end Path

namespace Expr

/-- The tokens of an expression are those of its paths. -/
theorem separatedBy_pathsBefore (expr : Expr Symbol) (selected : List Symbol)
    (rest : List (Path Symbol)) :
    separatedBy '=' (Path.tokens names) (expr.pathsBefore selected rest) =
      expr.tokens names ++ ((selected.flatMap fun name => [.sign '.', names.word name]) ++
        rest.flatMap fun path => .sign '=' :: path.tokens names) := by
  induction expr generalizing selected rest with
  | receiver => rfl
  | ident name => rfl
  | select target name ih =>
    rw [pathsBefore, ih, tokens, List.flatMap_cons]
    simp only [List.append_assoc, List.cons_append, List.nil_append]
  | assign target value ihTarget ihValue =>
    have later : (value.pathsBefore selected rest).flatMap
        (fun path => .sign '=' :: path.tokens names) = .sign '=' ::
          separatedBy '=' (Path.tokens names) (value.pathsBefore selected rest) := by
      have some := value.pathsBefore_ne_nil selected rest
      cases paths : value.pathsBefore selected rest with
      | nil => exact absurd paths some
      | cons path others => rfl
    rw [pathsBefore, ihTarget, later, ihValue, tokens, List.flatMap_nil, List.nil_append]
    simp only [List.append_assoc, List.cons_append]

theorem tokens_eq_paths (expr : Expr Symbol) :
    expr.tokens names = separatedBy '=' (Path.tokens names) expr.paths := by
  rw [paths, separatedBy_pathsBefore, List.flatMap_nil, List.flatMap_nil, List.append_nil,
    List.append_nil]

/-- The paths of an expression have the names of the expression. -/
theorem forall_pathsBefore {p : Symbol → Prop} {expr : Expr Symbol} {selected : List Symbol}
    {rest : List (Path Symbol)} (h : ∀ n ∈ expr.names, p n) (hs : ∀ n ∈ selected, p n)
    (hr : ∀ path ∈ rest, ∀ n ∈ path.all, p n) :
    ∀ path ∈ expr.pathsBefore selected rest, ∀ n ∈ path.all, p n := by
  induction expr generalizing selected rest with
  | receiver => exact List.forall_mem_cons.mpr ⟨hs, hr⟩
  | ident name =>
    rw [names, List.forall_mem_singleton] at h
    exact List.forall_mem_cons.mpr ⟨List.forall_mem_cons.mpr ⟨h, hs⟩, hr⟩
  | select target name ih =>
    rw [names, List.forall_mem_append, List.forall_mem_singleton] at h
    exact ih h.1 (List.forall_mem_cons.mpr ⟨h.2, hs⟩) hr
  | assign target value ihTarget ihValue =>
    rw [names, List.forall_mem_append] at h
    exact ihTarget h.1 (fun _ hn => absurd hn List.not_mem_nil) (ihValue h.2 hs hr)

/-- An expression starts with `this` or with a name. -/
theorem exists_tokens_eq_cons {expr : Expr Symbol} (plain : ∀ n ∈ expr.names, names.Plain n) :
    ∃ first rest, expr.tokens names = first :: rest ∧
      (first = .keyword "this" ∨ ∃ n, names.Plain n ∧ first = names.word n) := by
  induction expr with
  | receiver => exact ⟨_, _, rfl, .inl rfl⟩
  | ident name => exact ⟨_, _, rfl, .inr ⟨name, plain name (List.mem_singleton_self _), rfl⟩⟩
  | select target name ih =>
    rw [Expr.names, List.forall_mem_append] at plain
    obtain ⟨first, rest, tokens, word⟩ := ih plain.1
    exact ⟨first, _, by rw [Expr.tokens, tokens, List.cons_append], word⟩
  | assign target value ih =>
    rw [Expr.names, List.forall_mem_append] at plain
    obtain ⟨first, rest, tokens, word⟩ := ih plain.1
    exact ⟨first, _, by rw [Expr.tokens, tokens, List.cons_append], word⟩

/-- **An expression ends at the end of its statement.** -/
theorem unambiguous {expr expr' : Expr Symbol} (plain : ∀ n ∈ expr.names, names.Plain n)
    (plain' : ∀ n ∈ expr'.names, names.Plain n) :
    Unambiguous (fun r => r.head? = some (.sign ';')) (tokens names) shown expr expr' := by
  intro r r' hr hr' same
  rw [tokens_eq_paths, tokens_eq_paths] at same
  have none : ∀ n ∈ ([] : List Symbol), names.Plain n := fun _ hn => absurd hn List.not_mem_nil
  have noPath : ∀ path ∈ ([] : List (Path Symbol)), ∀ n ∈ path.all, names.Plain n :=
    fun _ hp => absurd hp List.not_mem_nil
  have each : ∀ path ∈ expr.paths, ∀ path' ∈ expr'.paths,
      Unambiguous (fun r => r.head? ≠ some (.sign '.')) (Path.tokens names) (fun path => path)
        path path' := fun path hp path' hp' =>
    Path.unambiguous (forall_pathsBefore plain none noPath path hp)
      (forall_pathsBefore plain' none noPath path' hp')
  -- no path starts with a sign, so the paths end at the semicolon
  have starts : ∀ (path : Path Symbol) (s r : List Token), r.head? = some (.sign ';') →
      path.tokens names ++ s ≠ r := by
    rintro path s r hr rfl
    have word : path.rootToken names = .sign ';' := Option.some_inj.mp hr
    obtain ⟨root, selected⟩ := path
    cases root <;> cases word
  have semicolon : ∀ {r : List Token} {c : Char}, r.head? = some (.sign ';') → c ≠ ';' →
      r.head? ≠ some (.sign c) := by
    intro r c hr other same
    rw [hr] at same
    injection same with same
    injection same with same
    exact other same.symm
  have dot : '.' ≠ ';' := by decide
  have equals : '=' ≠ ';' := by decide
  obtain ⟨paths, rest⟩ := Unambiguous.separatedBy each (fun _ => by simp) (semicolon hr dot)
    (semicolon hr' dot) (semicolon hr equals) (semicolon hr' equals)
    (fun path _ s => starts path s r hr) (fun path _ s => starts path s r' hr') same
  rw [List.map_id', List.map_id'] at paths
  exact ⟨shown_eq_shown_iff.mpr paths, rest⟩

end Expr

/-! ### Bodies -/

namespace Stmt

theorem exists_tokens_eq_cons {stmt : Stmt Symbol} (plain : ∀ n ∈ stmt.names, names.Plain n) :
    ∃ word rest, stmt.tokens names = .word word :: rest := by
  cases stmt with
  | ret value => exact ⟨_, _, rfl⟩
  | exec effect =>
    obtain ⟨first, rest, tokens, word⟩ := effect.exists_tokens_eq_cons plain
    rw [Stmt.tokens, tokens]
    rcases word with rfl | ⟨n, -, rfl⟩ <;> exact ⟨_, _, rfl⟩

/-- **A statement ends where its sign says so.** -/
theorem unambiguous {stmt stmt' : Stmt Symbol} (plain : ∀ n ∈ stmt.names, names.Plain n)
    (plain' : ∀ n ∈ stmt'.names, names.Plain n) :
    Unambiguous (fun _ => True) (tokens names) shown stmt stmt' := by
  have ended : ∀ {expr expr' : Expr Symbol}, (∀ n ∈ expr.names, names.Plain n) →
      (∀ n ∈ expr'.names, names.Plain n) → ∀ {r r' : List Token},
        expr.tokens names ++ [.sign ';'] ++ r = expr'.tokens names ++ [.sign ';'] ++ r' →
          expr.shown = expr'.shown ∧ r = r' := by
    intro expr expr' plain plain' r r' same
    rw [List.append_assoc, List.append_assoc] at same
    obtain ⟨shown, rest⟩ := Expr.unambiguous plain plain' _ _ rfl rfl same
    exact ⟨shown, (List.cons.inj rest).2⟩
  -- the tokens of an expression do not start with `return`
  have returns : "return" ∈ reservedWords := by decide
  have starts : ∀ {expr : Expr Symbol}, (∀ n ∈ expr.names, names.Plain n) → ∀ s s' : List Token,
      .keyword "return" :: s ≠ expr.tokens names ++ s' := by
    intro expr plain s s' same
    obtain ⟨first, rest, tokens, word⟩ := expr.exists_tokens_eq_cons plain
    rw [tokens] at same
    have first := (List.cons.inj same).1
    rcases word with rfl | ⟨n, hn, rfl⟩
    · exact absurd first (by decide)
    · exact hn.word_ne_keyword returns first.symm
  intro r r' _ _ same
  cases stmt with
  | ret value =>
    cases stmt' with
    | ret value' =>
      obtain ⟨values, rest⟩ := ended plain plain' (List.cons.inj same).2
      exact ⟨congrArg Stmt.ret values, rest⟩
    | exec effect' =>
      rw [tokens, tokens, List.append_assoc] at same
      exact absurd same (starts plain' _ _)
  | exec effect =>
    cases stmt' with
    | ret value' =>
      rw [tokens, tokens, List.append_assoc] at same
      exact absurd same.symm (starts plain _ _)
    | exec effect' =>
      obtain ⟨effects, rest⟩ := ended plain plain' same
      exact ⟨congrArg Stmt.exec effects, rest⟩

end Stmt

/-- A body ends where its brace closes. -/
theorem Block.unambiguous {block block' : Block Symbol} (plain : ∀ n ∈ block.names, names.Plain n)
    (plain' : ∀ n ∈ block'.names, names.Plain n) :
    Unambiguous (fun _ => True) (tokens names) shown block block' := by
  rw [Block.names, List.forall_mem_flatMap] at plain plain'
  intro r r' _ _ same
  rw [tokens, tokens, List.cons_append, List.cons_append, List.append_assoc,
    List.append_assoc] at same
  have noClose : ∀ {stmt : Stmt Symbol}, (∀ n ∈ stmt.names, names.Plain n) →
      ∀ s r : List Token, stmt.tokens names ++ s ≠ .sign '\x7d' :: r := by
    intro stmt plain s r same
    obtain ⟨word, rest, tokens⟩ := stmt.exists_tokens_eq_cons plain
    rw [tokens] at same
    cases (List.cons.inj same).1
  obtain ⟨shown, rest⟩ := Unambiguous.flatMap
    (fun stmt hs stmt' hs' => Stmt.unambiguous (plain stmt hs) (plain' stmt' hs'))
    (fun _ _ => trivial) trivial trivial (fun stmt hs s => noClose (plain' stmt hs) s _)
    (fun stmt hs s => noClose (plain stmt hs) s _) (List.cons.inj same).2
  exact ⟨congrArg (Block.mk 0) shown, (List.cons.inj rest).2⟩

/-- A parameter is two words. -/
theorem Param.unambiguous {param param' : Param Symbol} (plain : ∀ n ∈ param.names, names.Plain n)
    (plain' : ∀ n ∈ param'.names, names.Plain n) :
    Unambiguous (fun _ => True) (tokens names) (fun param => param) param param' := by
  rw [Param.names, List.forall_mem_cons] at plain plain'
  intro r r' _ _ same
  obtain ⟨type, later⟩ := List.cons.inj same
  obtain ⟨name, rest⟩ := List.cons.inj later
  obtain ⟨symbol, declared⟩ := param
  obtain ⟨symbol', declared'⟩ := param'
  obtain rfl : symbol = symbol' := plain.1.word_inj plain'.1 name
  obtain rfl : declared = declared' := TypeRef.token_inj plain.2 plain'.2 type
  exact ⟨rfl, rest⟩

/-- A list of parameters ends where its parenthesis closes. -/
theorem Param.listTokens_cancel {params params' : List (Param Symbol)}
    (plain : ∀ n ∈ params.flatMap Param.names, names.Plain n)
    (plain' : ∀ n ∈ params'.flatMap Param.names, names.Plain n) {r r' : List Token}
    (same : separatedBy ',' (Param.tokens names) params ++ .sign ')' :: r =
      separatedBy ',' (Param.tokens names) params' ++ .sign ')' :: r') :
    params = params' ∧ r = r' := by
  rw [List.forall_mem_flatMap] at plain plain'
  have noClose : ∀ (param : Param Symbol) (s r : List Token),
      param.tokens names ++ s ≠ .sign ')' :: r := by
    intro param s r same
    have first := (List.cons.inj same).1
    cases type : param.type <;> rw [type] at first <;> cases first
  obtain ⟨shown, rest⟩ := Unambiguous.separatedBy
    (fun param hp param' hp' => Param.unambiguous (plain param hp) (plain' param' hp'))
    (fun _ => trivial) trivial trivial (by simp) (by simp)
    (fun param _ s => noClose param s _) (fun param _ s => noClose param s _) same
  rw [List.map_id', List.map_id'] at shown
  exact ⟨shown, (List.cons.inj rest).2⟩

/-! ### Markers and modifiers -/

theorem AccessLevel.text_inj {level level' : AccessLevel} (same : level.text = level'.text) :
    level = level' := by
  cases level <;> cases level' <;> first | rfl | exact absurd same (by decide)

theorem Marker.unambiguous (marker marker' : Marker) :
    Unambiguous (fun _ => True) tokens (fun marker => marker) marker marker' := by
  intro r r' _ _ same
  cases marker <;> cases marker'
  case getter.getter => exact ⟨rfl, List.append_cancel_left same⟩
  case setter.setter => exact ⟨rfl, List.append_cancel_left same⟩
  case noArgsConstructor.noArgsConstructor access access' =>
    simp only [tokens, List.cons_append, List.nil_append, List.cons.injEq, true_and] at same
    obtain ⟨word, rest⟩ := same
    injection word with text
    rw [AccessLevel.text_inj (String.toList_inj.mp text)]
    exact ⟨rfl, rest⟩
  -- markers of different kinds have different words
  all_goals exact absurd (List.cons.inj (List.cons.inj same).2).1 (by decide)

namespace Modifiers

/-- The flags that some keywords stand for. -/
def readFlags (keywords : List String) : AccessLevel × Bool × Bool :=
  (if "public" ∈ keywords then .publicAccess
    else if "protected" ∈ keywords then .protectedAccess
    else if "private" ∈ keywords then .privateAccess
    else .packagePrivate,
    "static" ∈ keywords, "final" ∈ keywords)

theorem readFlags_keywords (modifiers : Modifiers) :
    readFlags modifiers.keywords =
      (modifiers.access.getD .packagePrivate, modifiers.isStatic, modifiers.isFinal) := by
  unfold keywords
  generalize modifiers.access = access
  generalize modifiers.isStatic = static
  generalize modifiers.isFinal = final
  cases access with
  | none => cases static <;> cases final <;> decide
  | some level => cases level <;> cases static <;> cases final <;> decide

/-- **Keywords say all that is shown of modifiers.** -/
theorem shown_eq_of_keywords {modifiers modifiers' : Modifiers}
    (same : modifiers.keywords = modifiers'.keywords) : modifiers.shown = modifiers'.shown := by
  have flags := congrArg readFlags same
  rw [readFlags_keywords, readFlags_keywords] at flags
  obtain ⟨access, others⟩ := Prod.mk.inj flags
  exact shown_eq_shown_iff.mpr ⟨access, Prod.mk.inj others⟩

end Modifiers

/-- What a declaration goes on with after its markers and modifiers. -/
def Token.Opens (token : Token) : Prop :=
  token ≠ .sign '@' ∧ token ∉ modifierWords.map .keyword

instance (token : Token) : Decidable token.Opens :=
  inferInstanceAs (Decidable (token ≠ .sign '@' ∧ token ∉ modifierWords.map .keyword))

theorem Names.Plain.opens {s : Symbol} (h : names.Plain s) : (names.word s).Opens := by
  refine ⟨Token.noConfusion, fun keyword => ?_⟩
  obtain ⟨word, reserved, same⟩ := List.mem_map.mp keyword
  exact h.word_ne_keyword (List.mem_append_left _ reserved) same.symm

theorem TypeRef.opens {type : TypeRef Symbol} (plain : ∀ n ∈ type.names, names.Plain n) :
    (type.token names).Opens := by
  cases type with
  | void =>
    have void : (Token.keyword "void").Opens := by decide
    exact void
  | named name => exact (plain name (List.mem_singleton_self _)).opens

theorem TypeKind.opens (kind : TypeKind) : (Token.keyword kind.keyword).Opens := by
  cases kind <;> decide

theorem Modifiers.tokens_append_eq_cons (modifiers : Modifiers) (token : Token) (r : List Token) :
    ∃ first rest, modifiers.tokens ++ token :: r = first :: rest ∧
      (first ∈ modifierWords.map .keyword ∨ first = token) := by
  rw [Modifiers.tokens]
  cases keywords : modifiers.keywords with
  | nil => exact ⟨_, _, rfl, .inr rfl⟩
  | cons keyword others =>
    have mem : keyword ∈ modifierWords := modifiers.keywords_subset (keywords ▸ List.mem_cons_self)
    exact ⟨_, _, rfl, .inl (List.mem_map_of_mem mem)⟩

/-- A declaration starts with a marker, with a modifier or with what comes after them. -/
theorem prologue_eq_cons (markers : List Marker) (modifiers : Modifiers) (token : Token)
    (r : List Token) :
    ∃ first rest, prologue markers modifiers ++ token :: r = first :: rest ∧
      (first = .sign '@' ∨ first ∈ modifierWords.map .keyword ∨ first = token) := by
  unfold prologue
  cases markers with
  | cons marker markers => cases marker <;> exact ⟨_, _, rfl, .inl rfl⟩
  | nil =>
    obtain ⟨first, rest, tokens, word⟩ := modifiers.tokens_append_eq_cons token r
    exact ⟨first, rest, tokens, .inr word⟩

/-- **Markers and modifiers end where something else begins.** -/
theorem prologue_cancel {markers markers' : List Marker} {modifiers modifiers' : Modifiers}
    {token token' : Token} {r r' : List Token} (opens : token.Opens) (opens' : token'.Opens)
    (same : prologue markers modifiers ++ token :: r =
      prologue markers' modifiers' ++ token' :: r') :
    markers = markers' ∧ modifiers.shown = modifiers'.shown ∧ token :: r = token' :: r' := by
  rw [prologue, prologue, List.append_assoc, List.append_assoc] at same
  -- a marker starts with a sign that neither a modifier nor the rest starts with
  have noMarker : ∀ (modifiers : Modifiers) {token : Token}, token.Opens → ∀ (marker : Marker)
      (s r : List Token), marker.tokens ++ s ≠ modifiers.tokens ++ token :: r := by
    intro modifiers token opens marker s r same
    obtain ⟨first, rest, tokens, word⟩ := modifiers.tokens_append_eq_cons token r
    have sign : first = .sign '@' := by
      rw [tokens] at same
      cases marker <;> exact (List.cons.inj same).1.symm
    rcases word with keyword | rfl
    · obtain ⟨word, -, same⟩ := List.mem_map.mp keyword
      rw [sign] at same
      cases same
    · exact opens.1 sign
  obtain ⟨marks, later⟩ := Unambiguous.flatMap
    (fun marker _ marker' _ => Marker.unambiguous marker marker') (fun _ _ => trivial) trivial
    trivial (fun marker _ s => noMarker modifiers opens marker s r)
    (fun marker _ s => noMarker modifiers' opens' marker s r') same
  rw [List.map_id', List.map_id'] at marks
  have words : ∀ keyword keyword' : String, Unambiguous (fun _ => True)
      (fun keyword => [Token.keyword keyword]) (fun keyword => keyword) keyword keyword' := by
    intro keyword keyword' r r' _ _ same
    obtain ⟨first, rest⟩ := List.cons.inj same
    injection first with spelling
    exact ⟨String.toList_inj.mp spelling, rest⟩
  have noWord : ∀ (modifiers : Modifiers) {token : Token}, token.Opens →
      ∀ keyword ∈ modifiers.keywords, ∀ s r : List Token,
        [Token.keyword keyword] ++ s ≠ token :: r := by
    intro modifiers token opens keyword hk s r same
    have first := (List.cons.inj same).1
    exact opens.2 (first ▸ List.mem_map_of_mem (modifiers.keywords_subset hk))
  rw [Modifiers.tokens, Modifiers.tokens, List.map_eq_flatMap, List.map_eq_flatMap] at later
  obtain ⟨keywords, rest⟩ := Unambiguous.flatMap (fun _ _ _ _ => words _ _) (fun _ _ => trivial)
    trivial trivial (fun keyword hk s => noWord modifiers' opens keyword hk s r)
    (fun keyword hk s => noWord modifiers opens' keyword hk s r') later
  rw [List.map_id', List.map_id'] at keywords
  exact ⟨marks, Modifiers.shown_eq_of_keywords keywords, rest⟩

/-! ### Methods -/

namespace MethodDecl

/-- The method is a constructor, and then it has the reserved name and no return type. -/
theorem of_isConstructor {decl : MethodDecl Symbol} (h : decl.isConstructor) :
    decl.name = InitName.init ∧ decl.returnType = none := by
  simpa [isConstructor] using h

variable {decl decl' : MethodDecl Symbol} {className : Symbol}

/-- All tokens before the parenthesis are words. -/
theorem isSign_of_mem_subject (className : Symbol) (decl : MethodDecl Symbol) :
    ∀ token ∈ decl.subject names className, token.isSign = false := by
  unfold subject
  split
  · exact List.forall_mem_singleton.mpr rfl
  · rw [List.forall_mem_cons, List.forall_mem_singleton]
    exact ⟨TypeRef.isSign_token _, rfl⟩

/-- **The subject of a method says its name and what it returns.** -/
theorem subject_inj (plain : ∀ n ∈ decl.names, names.Plain n)
    (plain' : ∀ n ∈ decl'.names, names.Plain n)
    (same : decl.subject names className = decl'.subject names className) :
    decl.name = decl'.name ∧ decl.shown.returnType = decl'.shown.returnType := by
  unfold subject at same
  by_cases isConstructor : decl.isConstructor
  · by_cases isConstructor' : decl'.isConstructor
    · have name := (of_isConstructor isConstructor).1
      have name' := (of_isConstructor isConstructor').1
      refine ⟨name.trans name'.symm, ?_⟩
      rw [shown, shown, if_pos isConstructor, if_pos isConstructor']
    · -- a constructor has one word and a method has two
      rw [if_pos isConstructor, if_neg isConstructor'] at same
      cases congrArg List.length same
  · by_cases isConstructor' : decl'.isConstructor
    · rw [if_neg isConstructor, if_pos isConstructor'] at same
      cases congrArg List.length same
    · rw [if_neg isConstructor, if_neg isConstructor'] at same
      obtain ⟨type, later⟩ := List.cons.inj same
      have name := (List.cons.inj later).1
      have here : names.Plain decl.name := plain _ List.mem_cons_self
      refine ⟨here.word_inj (plain' _ List.mem_cons_self) name, ?_⟩
      rw [shown, shown, if_neg isConstructor, if_neg isConstructor']
      exact congrArg some (TypeRef.token_inj (plain_returned plain) (plain_returned plain') type)

end MethodDecl

/-! ### Members and classes -/

namespace Member

/-- The markers of a member. -/
def markers : Member Symbol → List Marker
  | field decl => decl.markers
  | method decl => decl.markers
  | nested decl => decl.markers

/-- The modifiers of a member. -/
def modifiers : Member Symbol → Modifiers
  | field decl => decl.modifiers
  | method decl => decl.modifiers
  | nested decl => decl.modifiers

/-- The words of a member after its markers and modifiers. -/
def words (names : Names) (className : Symbol) : Member Symbol → List Token
  | field decl => [decl.type.token names, names.word decl.name]
  | method decl => decl.subject names className
  | nested decl => [.keyword decl.kind.keyword, names.word decl.name]

/-- The sign after these words, which tells what sort of member it is. -/
def firstSign : Member Symbol → Char
  | field _ => ';'
  | method _ => '('
  | nested _ => '\x7b'

/-- The tokens after that sign. -/
def remainder (names : Names) : Member Symbol → List Token
  | field _ => []
  | method decl =>
    separatedBy ',' (Param.tokens names) decl.params ++ .sign ')' :: decl.body.tokens names
  | nested decl => decl.members.flatMap (Member.tokens names decl.name) ++ [.sign '\x7d']

variable {className : Symbol} {member member' : Member Symbol}

theorem tokens_eq (className : Symbol) (member : Member Symbol) :
    member.tokens names className = prologue member.markers member.modifiers ++
      (member.words names className ++ .sign member.firstSign :: member.remainder names) := by
  cases member with
  | field decl => rfl
  | method decl => rfl
  | nested decl => exact decl.tokens_eq names

theorem isSign_of_mem_words (className : Symbol) (member : Member Symbol) :
    ∀ token ∈ member.words names className, token.isSign = false := by
  cases member with
  | field decl =>
    rw [words, List.forall_mem_cons, List.forall_mem_singleton]
    exact ⟨decl.type.isSign_token, rfl⟩
  | method decl => exact decl.isSign_of_mem_subject className
  | nested decl =>
    rw [words, List.forall_mem_cons, List.forall_mem_singleton]
    exact ⟨rfl, rfl⟩

/-- A member does not go on with a marker or a modifier after its markers and modifiers. -/
theorem exists_words_eq_cons (plain : ∀ node ∈ member.nodes, ∀ n ∈ node.names, names.Plain n)
    (plainClass : names.Plain className) :
    ∃ first rest, member.words names className = first :: rest ∧ first.Opens := by
  cases member with
  | field decl =>
    have here := plain _ (List.mem_singleton_self _)
    rw [Node.names_field, FieldDecl.names, List.forall_mem_cons] at here
    exact ⟨_, _, rfl, TypeRef.opens here.2⟩
  | method decl =>
    have here := plain _ (List.mem_singleton_self _)
    rw [words, MethodDecl.subject]
    split
    · exact ⟨_, _, rfl, plainClass.opens⟩
    · exact ⟨_, _, rfl, TypeRef.opens (MethodDecl.plain_returned here)⟩
  | nested decl => exact ⟨_, _, rfl, decl.kind.opens⟩

/-- **Members with the same tokens** have the same markers, modifiers and words, and they are of the
same sort. -/
theorem tokens_cancel (plain : ∀ node ∈ member.nodes, ∀ n ∈ node.names, names.Plain n)
    (plain' : ∀ node ∈ member'.nodes, ∀ n ∈ node.names, names.Plain n)
    (plainClass : names.Plain className) {r r' : List Token}
    (same : member.tokens names className ++ r = member'.tokens names className ++ r') :
    (member.markers = member'.markers ∧ member.modifiers.shown = member'.modifiers.shown) ∧
      member.words names className = member'.words names className ∧
      member.firstSign = member'.firstSign ∧
      member.remainder names ++ r = member'.remainder names ++ r' := by
  obtain ⟨first, rest, words, opens⟩ := exists_words_eq_cons plain plainClass
  obtain ⟨first', rest', words', opens'⟩ := exists_words_eq_cons plain' plainClass
  rw [tokens_eq, tokens_eq, words, words'] at same
  simp only [List.append_assoc, List.cons_append] at same
  obtain ⟨marks, modifiers, later⟩ := prologue_cancel opens opens' same
  -- the words end at the first sign
  have noSign : ∀ token ∈ first :: rest, token.isSign = false :=
    words ▸ member.isSign_of_mem_words className
  have noSign' : ∀ token ∈ first' :: rest', token.isSign = false :=
    words' ▸ member'.isSign_of_mem_words className
  obtain ⟨sameWords, sign, remainder⟩ := append_cons_cancel noSign noSign' rfl rfl later
  injection sign with sort
  rw [words, words']
  exact ⟨⟨marks, modifiers⟩, sameWords, sort, remainder⟩

end Member

/-- Fields are told by their words. -/
theorem FieldDecl.shown_eq_of_words {decl decl' : FieldDecl Symbol}
    (plain : ∀ n ∈ decl.names, names.Plain n) (plain' : ∀ n ∈ decl'.names, names.Plain n)
    (markers : decl.markers = decl'.markers)
    (modifiers : decl.modifiers.shown = decl'.modifiers.shown)
    (words : [decl.type.token names, names.word decl.name] =
      [decl'.type.token names, names.word decl'.name]) : decl.shown = decl'.shown := by
  rw [FieldDecl.names, List.forall_mem_cons] at plain plain'
  obtain ⟨type, later⟩ := List.cons.inj words
  have sameName := plain.1.word_inj plain'.1 (List.cons.inj later).1
  have sameType := TypeRef.token_inj plain.2 plain'.2 type
  have parts : ∀ decl : FieldDecl Symbol,
      decl.shown = ⟨⟨0⟩, decl.name, decl.type, decl.modifiers.shown, decl.markers⟩ := fun _ => rfl
  rw [parts, parts, sameName, sameType, modifiers, markers]

/-- Methods are told by their words and what follows the parenthesis. -/
theorem MethodDecl.shown_eq_of_words {decl decl' : MethodDecl Symbol} {className : Symbol}
    (plain : ∀ n ∈ decl.names, names.Plain n) (plain' : ∀ n ∈ decl'.names, names.Plain n)
    (markers : decl.markers = decl'.markers)
    (modifiers : decl.modifiers.shown = decl'.modifiers.shown)
    (words : decl.subject names className = decl'.subject names className) {r r' : List Token}
    (remainder : (Member.method decl).remainder names ++ r =
      (Member.method decl').remainder names ++ r') : decl.shown = decl'.shown ∧ r = r' := by
  obtain ⟨name, returnType⟩ := subject_inj plain plain' words
  simp only [MethodDecl.names, List.forall_mem_cons, List.forall_mem_append] at plain plain'
  rw [Member.remainder, Member.remainder, List.append_assoc, List.append_assoc] at remainder
  obtain ⟨params, later⟩ := Param.listTokens_cancel plain.2.1.2 plain'.2.1.2 remainder
  obtain ⟨body, rest⟩ := Block.unambiguous plain.2.2 plain'.2.2 _ _ trivial trivial later
  have parts : ∀ decl : MethodDecl Symbol, decl.shown = ⟨⟨0⟩, decl.name, decl.modifiers.shown,
      decl.shown.returnType, decl.params, decl.body.shown, decl.markers⟩ := fun _ => rfl
  rw [parts decl, parts decl', name, modifiers, returnType, params, body, markers]
  exact ⟨rfl, rest⟩

theorem Member.unambiguous {className : Symbol} {member member' : Member Symbol}
    (plain : ∀ node ∈ member.nodes, ∀ n ∈ node.names, names.Plain n)
    (plain' : ∀ node ∈ member'.nodes, ∀ n ∈ node.names, names.Plain n)
    (plainClass : names.Plain className)
    (inner : ∀ decl decl', member = .nested decl → member' = .nested decl' →
      Unambiguous (fun _ => True) (ClassDecl.tokens names) ClassDecl.shown decl decl') :
    Unambiguous (fun _ => True) (tokens names className) shown member member' := by
  intro r r' _ _ same
  obtain ⟨⟨markers, modifiers⟩, words, sort, remainder⟩ :=
    tokens_cancel plain plain' plainClass same
  -- the sign after the words tells fields, methods and classes apart
  cases member with
  | field decl =>
    cases member' with
    | field decl' =>
      have decls := FieldDecl.shown_eq_of_words (plain _ (List.mem_singleton_self _))
        (plain' _ (List.mem_singleton_self _)) markers modifiers words
      exact ⟨congrArg Member.field decls, remainder⟩
    | method decl' => simp [Member.firstSign] at sort
    | nested decl' => simp [Member.firstSign] at sort
  | method decl =>
    cases member' with
    | field decl' => simp [Member.firstSign] at sort
    | method decl' =>
      obtain ⟨decls, rest⟩ := MethodDecl.shown_eq_of_words (plain _ (List.mem_singleton_self _))
        (plain' _ (List.mem_singleton_self _)) markers modifiers words remainder
      exact ⟨congrArg Member.method decls, rest⟩
    | nested decl' => simp [Member.firstSign] at sort
  | nested decl =>
    cases member' with
    | field decl' => simp [Member.firstSign] at sort
    | method decl' => simp [Member.firstSign] at sort
    | nested decl' =>
      obtain ⟨decls, rest⟩ := inner decl decl' rfl rfl _ _ trivial trivial same
      exact ⟨congrArg Member.nested decls, rest⟩

theorem TypeKind.keyword_inj {kind kind' : TypeKind} (same : kind.keyword = kind'.keyword) :
    kind = kind' := by
  cases kind <;> cases kind' <;> first | rfl | exact absurd same (by decide)

/-- A member starts with a marker or with a word. -/
theorem Member.exists_tokens_eq_cons {className : Symbol} {member : Member Symbol}
    (plain : ∀ node ∈ member.nodes, ∀ n ∈ node.names, names.Plain n)
    (plainClass : names.Plain className) :
    ∃ first rest, member.tokens names className = first :: rest ∧
      (first = .sign '@' ∨ first ∈ modifierWords.map .keyword ∨
        first ∈ member.words names className) := by
  obtain ⟨word, later, words, -⟩ := exists_words_eq_cons plain plainClass
  obtain ⟨first, rest, tokens, start⟩ := prologue_eq_cons member.markers member.modifiers word
    (later ++ .sign member.firstSign :: member.remainder names)
  refine ⟨first, rest, ?_, ?_⟩
  · rw [tokens_eq, words, List.cons_append, tokens]
  · rcases start with sign | keyword | rfl
    · exact .inl sign
    · exact .inr (.inl keyword)
    · exact .inr (.inr (words ▸ List.mem_cons_self))

theorem Member.tokens_ne_close {className : Symbol} {member : Member Symbol}
    (plain : ∀ node ∈ member.nodes, ∀ n ∈ node.names, names.Plain n)
    (plainClass : names.Plain className) (s r : List Token) :
    member.tokens names className ++ s ≠ .sign '\x7d' :: r := by
  intro same
  obtain ⟨first, rest, tokens, start⟩ := exists_tokens_eq_cons plain plainClass
  rw [tokens] at same
  obtain ⟨sign, -⟩ := List.cons.inj same
  rcases start with other | keyword | word
  · exact absurd (sign.symm.trans other) (by decide)
  · exact absurd (sign ▸ keyword) (by decide)
  · have noSign := member.isSign_of_mem_words className first word
    rw [sign] at noSign
    cases noSign

theorem ClassDecl.plain_name {decl : ClassDecl Symbol}
    (plain : ∀ node ∈ decl.nodes, ∀ n ∈ node.names, names.Plain n) : names.Plain decl.name := by
  rw [ClassDecl.nodes_eq, List.forall_mem_cons] at plain
  exact plain.1 _ List.mem_cons_self

/-- **A class ends where its brace closes,** and its tokens say all that is shown of it. -/
theorem ClassDecl.unambiguous {decl decl' : ClassDecl Symbol}
    (plain : ∀ node ∈ decl.nodes, ∀ n ∈ node.names, names.Plain n)
    (plain' : ∀ node ∈ decl'.nodes, ∀ n ∈ node.names, names.Plain n) :
    Unambiguous (fun _ => True) (tokens names) shown decl decl' := by
  induction decl using ClassDecl.induction generalizing decl' with
  | step decl ih =>
    intro r r' _ _ same
    have name := plain_name plain
    -- as members of some class, the two have the same words before their braces
    have asMember : ∀ node ∈ (Member.nested decl).nodes, ∀ n ∈ node.names, names.Plain n := plain
    have asMember' : ∀ node ∈ (Member.nested decl').nodes, ∀ n ∈ node.names, names.Plain n :=
      plain'
    have nested : (Member.nested decl).tokens names decl.name ++ r =
        (Member.nested decl').tokens names decl.name ++ r' := same
    obtain ⟨⟨markers, modifiers⟩, words, -, remainder⟩ :=
      Member.tokens_cancel asMember asMember' name nested
    obtain ⟨keyword, later⟩ := List.cons.inj words
    injection keyword with spelling
    have sameKind := TypeKind.keyword_inj (String.toList_inj.mp spelling)
    have sameName := name.word_inj (plain_name plain') (List.cons.inj later).1
    -- constructors are spelled with the name of the class, which is the same for both by now
    simp only [Member.remainder, ← sameName, List.append_assoc] at remainder
    rw [ClassDecl.nodes_eq, List.forall_mem_cons, List.forall_mem_flatMap] at plain plain'
    have each : ∀ member ∈ decl.members, ∀ member' ∈ decl'.members, Unambiguous (fun _ => True)
        (Member.tokens names decl.name) Member.shown member member' := by
      intro member hm member' hm'
      refine Member.unambiguous (plain.2 member hm) (plain'.2 member' hm') name ?_
      rintro inner inner' rfl rfl
      exact ih inner hm (plain.2 _ hm) (plain'.2 _ hm')
    obtain ⟨members, rest⟩ := Unambiguous.flatMap each
      (fun _ _ => trivial) trivial trivial
      (fun member hm s => Member.tokens_ne_close (plain'.2 member hm) name s _)
      (fun member hm s => Member.tokens_ne_close (plain.2 member hm) name s _) remainder
    have sameMarkers : decl.markers = decl'.markers := markers
    have sameModifiers : decl.modifiers.shown = decl'.modifiers.shown := modifiers
    rw [shown_eq, shown_eq, sameName, sameKind, sameModifiers, sameMarkers, members]
    exact ⟨rfl, (List.cons.inj rest).2⟩

/-! ### Units -/

/-- A unit whose source text can be read: its names are plain, and its package has no blanks and no
semicolon. -/
structure CompilationUnit.Plain (names : Names) (unit : CompilationUnit Symbol) : Prop where
  names : ∀ node ∈ unit.nodes, ∀ n ∈ node.names, names.Plain n
  package : ∀ name ∈ unit.package, name.toList.all fun c => !Text.isBlank c && c ≠ ';'

/-- A class starts with a marker or a word, but not like a package line. -/
theorem ClassDecl.exists_tokens_eq_cons {decl : ClassDecl Symbol}
    (plain : ∀ node ∈ decl.nodes, ∀ n ∈ node.names, names.Plain n) :
    ∃ first rest, decl.tokens names = first :: rest ∧ first ≠ .keyword "package" := by
  have name := plain_name plain
  have asMember : ∀ node ∈ (Member.nested decl).nodes, ∀ n ∈ node.names, names.Plain n := plain
  obtain ⟨first, rest, tokens, start⟩ := Member.exists_tokens_eq_cons asMember name
  refine ⟨first, rest, tokens, ?_⟩
  rintro rfl
  rcases start with sign | keyword | word
  · cases sign
  · exact absurd keyword (by decide)
  · rw [Member.words, List.mem_cons, List.mem_singleton] at word
    have reserved : "package" ∈ reservedWords := by decide
    rcases word with kind | same
    · cases sort : decl.kind <;> rw [sort] at kind <;> exact absurd kind (by decide)
    · exact name.word_ne_keyword reserved same.symm

theorem Text.ink_of_noBlank {s : List Char} (h : ∀ c ∈ s, isBlank c = false) : ink s = s := by
  rw [ink, List.filter_eq_self]
  intro c hc
  rw [h c hc]
  rfl

/-- The package line ends at its semicolon. -/
theorem packageTokens_cancel {package package' : Option String}
    (plain : ∀ name ∈ package, name.toList.all fun c => !Text.isBlank c && c ≠ ';')
    (plain' : ∀ name ∈ package', name.toList.all fun c => !Text.isBlank c && c ≠ ';')
    {r r' : List Token} (noPackage : ∀ s, r ≠ .keyword "package" :: s)
    (noPackage' : ∀ s, r' ≠ .keyword "package" :: s)
    (same : packageTokens package ++ r = packageTokens package' ++ r') :
    package = package' ∧ r = r' := by
  have each : ∀ name : String, name.toList.all (fun c => !Text.isBlank c && c ≠ ';') →
      ∀ c ∈ name.toList, Text.isBlank c = false ∧ c ≠ ';' := by
    intro name plain c hc
    simpa using List.all_eq_true.mp plain c hc
  have noSemicolon : ∀ name : String, (∀ c ∈ name.toList, Text.isBlank c = false ∧ c ≠ ';') →
      ∀ token ∈ Text.tokens name.toList, decide (token = .sign ';') = false := by
    intro name plain token ht
    rw [decide_eq_false_iff_not]
    rintro rfl
    exact (plain ';' (Text.mem_of_sign_mem_tokens ht)).2 rfl
  cases package with
  | none =>
    cases package' with
    | none => exact ⟨rfl, same⟩
    | some name' => exact absurd same (noPackage _)
  | some name =>
    cases package' with
    | none => exact absurd same.symm (noPackage' _)
    | some name' =>
      have here := each name (plain name rfl)
      have here' := each name' (plain' name' rfl)
      simp only [packageTokens, List.cons_append, List.append_assoc] at same
      obtain ⟨tokens, -, rest⟩ := append_cons_cancel (noSemicolon name here)
        (noSemicolon name' here') (decide_eq_true rfl) (decide_eq_true rfl) (List.cons.inj same).2
      -- a text without blanks can be read off its tokens
      have ink := congrArg (List.flatMap Token.chars) tokens
      rw [Text.flatMap_chars_tokens, Text.flatMap_chars_tokens,
        Text.ink_of_noBlank fun c hc => (here c hc).1,
        Text.ink_of_noBlank fun c hc => (here' c hc).1] at ink
      exact ⟨congrArg some (String.toList_inj.mp ink), rest⟩

namespace CompilationUnit

variable {unit unit' : CompilationUnit Symbol}

/-- **The tokens of a unit say all that is shown of it.** -/
theorem shown_eq_of_tokens (plain : unit.Plain names) (plain' : unit'.Plain names)
    (same : unit.tokens names = unit'.tokens names) : unit.shown = unit'.shown := by
  have types : ∀ {unit : CompilationUnit Symbol}, unit.Plain names → ∀ decl ∈ unit.types,
      ∀ node ∈ decl.nodes, ∀ n ∈ node.names, names.Plain n := by
    intro unit plain
    have all := plain.names
    rwa [CompilationUnit.nodes_eq, List.forall_mem_flatMap] at all
  have noPackage : ∀ {unit : CompilationUnit Symbol}, unit.Plain names → ∀ s,
      unit.types.flatMap (ClassDecl.tokens names) ≠ .keyword "package" :: s := by
    intro unit plain s same
    cases all : unit.types with
    | nil =>
      rw [all] at same
      cases same
    | cons decl others =>
      obtain ⟨first, rest, tokens, other⟩ := ClassDecl.exists_tokens_eq_cons
        (types plain decl (all ▸ List.mem_cons_self))
      rw [all, List.flatMap_cons, tokens] at same
      exact other (List.cons.inj same).1
  have noEnd : ∀ {unit : CompilationUnit Symbol}, unit.Plain names → ∀ decl ∈ unit.types,
      ∀ s, decl.tokens names ++ s ≠ [] := by
    intro unit plain decl hd s same
    obtain ⟨first, rest, tokens, -⟩ := ClassDecl.exists_tokens_eq_cons (types plain decl hd)
    rw [tokens] at same
    cases same
  obtain ⟨package, later⟩ := packageTokens_cancel plain.package plain'.package (noPackage plain)
    (noPackage plain') same
  have padded : unit.types.flatMap (ClassDecl.tokens names) ++ [] =
      unit'.types.flatMap (ClassDecl.tokens names) ++ [] := by
    rw [List.append_nil, List.append_nil, later]
  obtain ⟨decls, -⟩ := Unambiguous.flatMap
    (fun decl hd decl' hd' => ClassDecl.unambiguous (types plain decl hd) (types plain' decl' hd'))
    (fun _ _ => trivial) trivial trivial (noEnd plain') (noEnd plain) padded
  rw [shown, shown, package, decls]

/-- **Source text is unambiguous.** Two units have the same source text exactly if they show the
same, whatever the layout is. -/
theorem source_eq_source_iff (layout : Layout) (plain : unit.Plain names)
    (plain' : unit'.Plain names) :
    unit.source layout names = unit'.source layout names ↔ unit.shown = unit'.shown := by
  have covers : ∀ {unit : CompilationUnit Symbol}, unit.Plain names → names.Covers unit.nodes :=
    fun plain node hn s hs => (plain.names node hn s hs).knows
  constructor
  · intro same
    have tokens := congrArg (fun text => Text.tokens text.toList) same
    rw [tokens_source layout unit plain.names, tokens_source layout unit' plain'.names] at tokens
    exact shown_eq_of_tokens plain plain' tokens
  · intro same
    rw [← unit.source_shown layout (covers plain), same, unit'.source_shown layout (covers plain')]

/-- Two units that differ in their files, in ids and flags, in a return type that goes without
saying and in how two assignments are nested. -/
def lookalikes : (CompilationUnit Symbol × CompilationUnit Symbol) × Maker :=
  let program : Building (CompilationUnit Symbol × CompilationUnit Symbol) := do
    let car ← Building.name "Car"
    let set ← Building.name "set"
    let price ← Building.name "price"
    let target : Expr Symbol := .select .receiver price
    let left : Stmt Symbol := .exec (.assign (.assign target (.ident price)) (.ident set))
    let right : Stmt Symbol := .exec (.assign target (.assign (.ident price) (.ident set)))
    let first ← Building.method set none .none [] { stmts := [left] }
    let second ← Building.method set (some .void) ⟨3⟩ [] { indent := 2, stmts := [right] }
    let unit ← Building.type car .classType (.ofAccess .publicAccess) [.getter] [.method first]
    let unit' ← Building.type car .classType ⟨33⟩ [.getter] [.method second]
    return (
      { fileName := "Car.java", package := some "com.app", origin := .source, types := [unit] },
      { fileName := "Old.java", package := some "com.app", origin := .library, types := [unit'] })
  program {}

theorem plain_lookalikes :
    lookalikes.1.1.Plain lookalikes.2.names ∧ lookalikes.1.2.Plain lookalikes.2.names := by
  refine ⟨⟨?_, ?_⟩, ⟨?_, ?_⟩⟩ <;> decide +kernel

theorem source_eq_source_lookalikes :
    (lookalikes.1.1.Plain lookalikes.2.names ∧ lookalikes.1.2.Plain lookalikes.2.names) ∧
      lookalikes.1.1.source {} lookalikes.2.names = lookalikes.1.2.source {} lookalikes.2.names :=
  ⟨plain_lookalikes, (source_eq_source_iff {} plain_lookalikes.1 plain_lookalikes.2).mpr rfl⟩

end CompilationUnit

end Augment
