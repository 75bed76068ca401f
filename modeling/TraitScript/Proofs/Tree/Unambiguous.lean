import TraitScript.Proofs.Tree.Form

/-!
# The text of a tree determines the tree

By induction over a tree: the words of a node give back its tokens and the trees right below, up to
ids and lines. String literals are left out because any text may stand in them, infinite numbers
because they are written like a name, and a `nil` by itself in a `for` because an absent clause is
written like it.
-/

namespace TraitScript

/-! ### Lists of trees -/

section Lists

variable {tree : Type} {trees trees' : List tree} {words words' others others' : List String}

theorem forall₂_of_map {render : tree → String} {R : tree → tree → Prop}
    (h : ∀ t ∈ trees, ∀ t' ∈ trees', render t = render t' → R t t')
    (heq : trees.map render = trees'.map render) : List.Forall₂ R trees trees' := by
  induction trees generalizing trees' with
  | nil =>
      cases trees' with
      | nil => exact .nil
      | cons t' rest' => cases heq
  | cons t rest ih =>
      cases trees' with
      | nil => cases heq
      | cons t' rest' =>
          obtain ⟨hfirst, hrest⟩ := List.cons.inj heq
          refine .cons (h t (.head _) t' (.head _) hfirst) (ih (fun u hu u' hu' => ?_) hrest)
          exact h u (.tail _ hu) u' (.tail _ hu')

/-- Words before others that differ from them in a property. -/
theorem append_inj_of_forall {P : String → Prop} (h : ∀ word ∈ words, P word)
    (h' : ∀ word ∈ words', P word) (hothers : ∀ word ∈ others, ¬ P word)
    (hothers' : ∀ word ∈ others', ¬ P word) (heq : words ++ others = words' ++ others') :
    words = words' ∧ others = others' := by
  classical
  have hkept : ∀ {words others : List String}, (∀ word ∈ words, P word) →
      (∀ word ∈ others, ¬ P word) → (words ++ others).filter (P ·) = words := by
    intro words others h hothers
    rw [List.filter_append, List.filter_eq_self.2 fun word hword => decide_eq_true (h word hword),
      List.filter_eq_nil_iff.2 fun word hword => by simpa using hothers word hword, List.append_nil]
  have hsame : words = words' := by rw [← hkept h hothers, heq, hkept h' hothers']
  subst hsame
  exact ⟨rfl, List.append_cancel_left heq⟩

theorem Expr.AlikeAll.of_forall₂ {C : Correspondence} {marks : List Bool} {es es' : List Expr}
    (h : List.Forall₂ (Expr.Alike C marks) es es') :
    Expr.AlikeAll C marks es es' := by
  induction h with
  | nil => exact .nil
  | cons h _ ih => exact .cons h ih

theorem FunctionDecl.AlikeAll.of_forall₂ {C : Correspondence} {marks : List Bool}
    {decls decls' : List FunctionDecl}
    (h : List.Forall₂ (FunctionDecl.Alike C marks) decls decls') :
    FunctionDecl.AlikeAll C marks decls decls' := by
  induction h with
  | nil => exact .nil
  | cons h _ ih => exact .cons h ih

theorem Stmt.AlikeAll.of_forall₂ {C : Correspondence} {marks : List Bool}
    {statements statements' : List Stmt}
    (h : List.Forall₂ (Stmt.Alike C marks) statements statements') :
    Stmt.AlikeAll C marks statements statements' := by
  induction h with
  | nil => exact .nil
  | cons h _ ih => exact .cons h ih

end Lists

/-! ### From words to trees -/

/-- That no other node of a clear tree is written in the same way. -/
def Node.ToldApart : Node → Prop
  | .expr e => ∀ e', (Node.expr e').All Node.Clear → e.render = e'.render →
      ∀ marks, Expr.Alike .elsewhere marks e e'
  | .function decl =>
    ∀ decl', (Node.function decl').All Node.Clear → decl.words = decl'.words →
      ∀ marks, FunctionDecl.Alike .elsewhere marks decl decl'
  | .body members =>
    ∀ members', (Node.body members').All Node.Clear → members.words = members'.words →
    ∀ outside inside, ClassBody.Alike .elsewhere outside inside members members'
  | .stmt s => ∀ s', (Node.stmt s').All Node.Clear → s.render = s'.render →
      ∀ marks, Stmt.Alike .elsewhere marks s s'

theorem Literal.eq_of_render {value value' : Literal} (h : (Node.expr (.literal value)).Clear)
    (h' : (Node.expr (.literal value')).Clear) (heq : value.render = value'.render) :
    value = value' := by
  have hnumber : ∀ {x : Float} {text : String}, (Node.expr (.literal (.number x))).Clear →
      startsNumber text = false → Number.inTree x ≠ text := by
    rintro x _ hclear htext rfl
    rw [startsNumber_inTree hclear.number] at htext
    cases htext
  cases value with
  | number x =>
      cases value' with
      | number y => rw [Number.inTree_injective h.number h'.number heq]
      | string text => exact h'.2.elim
      | bool value' => cases value' <;> exact absurd heq (hnumber h rfl)
      | nil => exact absurd heq (hnumber h rfl)
  | string text => exact h.2.elim
  | bool value =>
      cases value' with
      | number y => cases value <;> exact absurd heq.symm (hnumber h' rfl)
      | string text => exact h'.2.elim
      | bool value' => cases value <;> cases value' <;> first | rfl | exact absurd heq (by decide)
      | nil => cases value <;> exact absurd heq (by decide)
  | nil =>
      cases value' with
      | number y => exact absurd heq.symm (hnumber h' rfl)
      | string text => exact h'.2.elim
      | bool value' => cases value' <;> exact absurd heq (by decide)
      | nil => rfl

theorem Expr.view_eq_of_render {e e' : Expr} (h : (Node.expr e).All Node.Clear)
    (h' : (Node.expr e').All Node.Clear) (heq : e.render = e'.render) :
    e.view = e'.view ∧ e.form = e'.form := by
  have hview : e.view = e'.view :=
    View.Legible.eq_of_text (Node.legible h) (Node.legible h') (by rw [← render_eq, heq, render_eq])
  refine ⟨hview, ?_⟩
  rw [← form_view (Node.all_iff.1 h).1, hview, form_view (Node.all_iff.1 h').1]

section ToldApart

variable {marks : List Bool}

theorem alike_exprs {es es' : List Expr} (h : ∀ node ∈ es.map Node.expr, node.ToldApart)
    (h' : ∀ node ∈ es'.map Node.expr, node.All Node.Clear)
    (heq : es.map Expr.render = es'.map Expr.render) : Expr.AlikeAll .elsewhere marks es es' := by
  rw [List.forall_mem_map] at h h'
  exact .of_forall₂
    (forall₂_of_map (fun e he e' he' hsame => h e he e' (h' e' he') hsame marks) heq)

theorem alike_stmts {statements statements' : List Stmt}
    (h : ∀ node ∈ statements.map Node.stmt, node.ToldApart)
    (h' : ∀ node ∈ statements'.map Node.stmt, node.All Node.Clear)
    (heq : statements.map Stmt.render = statements'.map Stmt.render) :
    Stmt.AlikeAll .elsewhere marks statements statements' := by
  rw [List.forall_mem_map] at h h'
  exact .of_forall₂
    (forall₂_of_map (fun s hs s' hs' hsame => h s hs s' (h' s' hs') hsame marks) heq)

theorem alike_functions {keyword : String} {decls decls' : List FunctionDecl}
    (hkeyword : IsItem keyword) (hclear : ∀ node ∈ decls.map Node.function, node.All Node.Clear)
    (h : ∀ node ∈ decls.map Node.function, node.ToldApart)
    (h' : ∀ node ∈ decls'.map Node.function, node.All Node.Clear)
    (heq : decls.map (·.render keyword) = decls'.map (·.render keyword)) :
    FunctionDecl.AlikeAll .elsewhere marks decls decls' := by
  rw [List.forall_mem_map] at hclear h h'
  refine .of_forall₂
    (forall₂_of_map (fun decl hdecl decl' hdecl' hsame => h decl hdecl decl' (h' decl' hdecl')
      ?_ marks) heq)
  rw [FunctionDecl.render_eq, FunctionDecl.render_eq] at hsame
  exact List.cons_injective
    (parenthesize_injective (.cons hkeyword (Node.legible (hclear decl hdecl)))
    (.cons hkeyword (Node.legible (h' decl' hdecl'))) hsame)

theorem alike_uses {es es' : List Expr} (hclear : ∀ node ∈ es.map Node.expr, node.All Node.Clear)
    (h : ∀ node ∈ es.map Node.expr, node.ToldApart)
    (h' : ∀ node ∈ es'.map Node.expr, node.All Node.Clear)
    (heq : es.map (fun e => parenthesize ["use", e.render]) = es'.map
      fun e => parenthesize ["use", e.render]) : Expr.AlikeAll .elsewhere marks es es' := by
  rw [List.forall_mem_map] at hclear h h'
  refine .of_forall₂ (forall₂_of_map (fun e he e' he' hsame => h e he e' (h' e' he') ?_ marks) heq)
  simpa using parenthesize_injective (items_use (Node.legible (hclear e he)))
    (items_use (Node.legible (h' e' he'))) hsame

theorem alike_expr? {e e' : Option Expr} (h : ∀ node ∈ e.toList.map Node.expr, node.ToldApart)
    (h' : ∀ node ∈ e'.toList.map Node.expr, node.All Node.Clear)
    (heq : e.toList.map Expr.render = e'.toList.map Expr.render) :
    Expr.Alike? .elsewhere marks e e' := by
  cases e <;> cases e'
  · exact .none
  · cases heq
  · cases heq
  · exact .some (h _ (.head _) _ (h' _ (.head _)) (List.cons.inj heq).1 marks)

theorem alike_stmt? {s s' : Option Stmt} (h : ∀ node ∈ s.toList.map Node.stmt, node.ToldApart)
    (h' : ∀ node ∈ s'.toList.map Node.stmt, node.All Node.Clear)
    (heq : s.toList.map Stmt.render = s'.toList.map Stmt.render) :
    Stmt.Alike? .elsewhere marks s s' := by
  cases s <;> cases s'
  · exact .none
  · cases heq
  · cases heq
  · exact .some (h _ (.head _) _ (h' _ (.head _)) (List.cons.inj heq).1 marks)

/-- Nothing but the literal itself is written `nil`. -/
theorem Expr.eq_nil_of_render {e : Expr} (h : (Node.expr e).All Node.Clear)
    (heq : e.render = "nil") : e = .literal .nil := by
  have hnil : (Node.expr (.literal .nil)).All Node.Clear :=
    Node.all_iff.2 ⟨⟨trivial, trivial⟩, nofun⟩
  obtain ⟨hview, hform⟩ := view_eq_of_render h hnil heq
  cases e <;> cases hform
  next value =>
    rw [Literal.eq_of_render (Node.all_iff.1 h).1 (Node.all_iff.1 hnil).1
      (View.leaf.inj hview)]

theorem alike_clause {e e' : Option Expr}
    (hclear : ∀ node ∈ e.toList.map Node.expr, node.All Node.Clear)
    (h : ∀ node ∈ e.toList.map Node.expr, node.ToldApart)
    (h' : ∀ node ∈ e'.toList.map Node.expr, node.All Node.Clear) (hnil : e ≠ some (.literal .nil))
    (hnil' : e' ≠ some (.literal .nil)) (heq : renderClause e = renderClause e') :
    Expr.Alike? .elsewhere marks e e' := by
  cases e with
  | none =>
      cases e' with
      | none => exact .none
      | some e' =>
        exact absurd (congrArg some (Expr.eq_nil_of_render (h' _ (.head _)) heq.symm)) hnil'
  | some e =>
      cases e' with
      | none => exact absurd (congrArg some (Expr.eq_nil_of_render (hclear _ (.head _)) heq)) hnil
      | some e' => exact .some (h _ (.head _) _ (h' _ (.head _)) heq marks)

theorem alike_initial {s s' : Option Stmt} (h : ∀ node ∈ s.toList.map Node.stmt, node.ToldApart)
    (h' : ∀ node ∈ s'.toList.map Node.stmt, node.All Node.Clear)
    (heq : renderInitial s = renderInitial s') : Stmt.Alike? .elsewhere marks s s' := by
  have hnil : ∀ s : Stmt, s.render ≠ "nil" := by
    intro s heq
    have hparen : '(' ∈ s.render.toList := by simp [Stmt.render_eq, toList_parenthesize]
    rw [heq] at hparen
    exact absurd hparen (by decide)
  cases s with
  | none =>
      cases s' with
      | none => exact .none
      | some s' => exact absurd heq.symm (hnil s')
  | some s =>
      cases s' with
      | none => exact absurd heq (hnil s)
      | some s' => exact .some (h _ (.head _) _ (h' _ (.head _)) heq marks)

theorem Expr.toldApart {e : Expr} (hclear : (Node.expr e).All Node.Clear)
    (ih : ∀ child ∈ (Node.expr e).children, child.ToldApart) :
    (Node.expr e).ToldApart := by
  intro e' hclear' heq marks
  obtain ⟨hview, hform⟩ := view_eq_of_render hclear hclear' heq
  obtain ⟨hhere, hchildren⟩ := Node.all_iff.1 hclear
  obtain ⟨hhere', hchildren'⟩ := Node.all_iff.1 hclear'
  have hfits := hhere.1
  have hfits' := hhere'.1
  have hsame : ∀ {child child'}, .expr child ∈ (Node.expr e).children →
      .expr child' ∈ (Node.expr e').children → child.render = child'.render →
      Expr.Alike .elsewhere marks child child' :=
        fun hchild hchild' heq => ih _ hchild _ (hchildren' _ hchild') heq marks
  cases e with
  | literal value =>
      cases e' <;> cases hform
      next value' =>
        obtain rfl := Literal.eq_of_render hhere hhere' (View.leaf.inj hview)
        exact .literal
  | group inner =>
      cases e' <;> cases hform
      next inner' =>
        simp only [view, View.list.injEq, List.cons.injEq, true_and, and_true] at hview
        exact .group (hsame (.head _) (.head _) hview)
  | unary operator right =>
      cases e' <;> cases hform
      next operator' right' =>
        simp only [view, View.list.injEq, List.cons.injEq, and_true] at hview
        exact .unary (Token.same_of_symbol hfits hfits' hview.1) (hsame (.head _) (.head _) hview.2)
  | binary left operator right =>
      cases e' <;> cases hform
      next left' operator' right' =>
        simp only [view, View.list.injEq, List.cons.injEq, and_true] at hview
        obtain ⟨hoperator, hleft, hright⟩ := hview
        exact .binary (hsame (.head _) (.head _) hleft)
          (Token.same_of_symbol hfits hfits' hoperator)
          (hsame (.tail _ (.head _)) (.tail _ (.head _)) hright)
  | logical left operator right =>
      cases e' <;> cases hform
      next left' operator' right' =>
        simp only [view, View.list.injEq, List.cons.injEq, and_true] at hview
        obtain ⟨hoperator, hleft, hright⟩ := hview
        exact .logical (hsame (.head _) (.head _) hleft)
          (Token.same_of_logical hfits hfits' hoperator)
          (hsame (.tail _ (.head _)) (.tail _ (.head _)) hright)
  | conditional condition thenBranch elseBranch =>
      cases e' <;> cases hform
      next condition' thenBranch' elseBranch' =>
        simp only [view, View.list.injEq, List.cons.injEq, true_and, and_true] at hview
        obtain ⟨hcondition, hthen, helse⟩ := hview
        exact .conditional (hsame (.head _) (.head _) hcondition)
          (hsame (.tail _ (.head _)) (.tail _ (.head _)) hthen)
          (hsame (.tail _ (.tail _ (.head _))) (.tail _ (.tail _ (.head _))) helse)
  | «variable» id name =>
      cases e' <;> cases hform
      next id' name' => exact .variable (Token.same_of_name hfits hfits' (View.leaf.inj hview))
  | assign id name value =>
      cases e' <;> cases hform
      next id' name' value' =>
        simp only [view, View.list.injEq, List.cons.injEq, true_and, and_true] at hview
        exact .assign (Token.same_of_name hfits hfits' hview.1) (hsame (.head _) (.head _) hview.2)
  | call callee paren arguments =>
      cases e' <;> cases hform
      next callee' paren' arguments' =>
        simp only [view, View.list.injEq, List.cons.injEq, true_and] at hview
        obtain ⟨hcallee, harguments⟩ := List.forall_mem_cons.1 ih
        obtain ⟨hcallee', harguments'⟩ := List.forall_mem_cons.1 hchildren'
        have hparen : ∀ {token : Token}, token.Spelled ∧ token.isSymbol .rightParen = true →
            token.Spelled ∧ Parse.isAnySymbol [.rightParen] token = true :=
          fun h => ⟨h.1, List.any_eq_true.2 ⟨_, .head _, h.2⟩⟩
        have htext := (hfits.1.symbol hfits.2).2.trans (hfits'.1.symbol hfits'.2).2.symm
        exact .call (hcallee callee' hcallee' hview.1 marks)
          (Token.same_of_symbol (hparen hfits) (hparen hfits') htext)
          (alike_exprs harguments harguments' hview.2)
  | function decl =>
      cases e' <;> cases hform
      next decl' =>
        simp only [view, View.list.injEq, List.cons.injEq, true_and] at hview
        exact .function (ih _ (.head _) decl' (hchildren' _ (.head _)) hview marks)
  | get object name =>
      cases e' <;> cases hform
      next object' name' =>
        simp only [view, View.list.injEq, List.cons.injEq, true_and, and_true] at hview
        exact .get (hsame (.head _) (.head _) hview.1) (Token.same_of_name hfits hfits' hview.2)
  | set object name value =>
      cases e' <;> cases hform
      next object' name' value' =>
        simp only [view, View.list.injEq, List.cons.injEq, true_and, and_true] at hview
        have hobject := Node.legible (hchildren _ (.head _))
        have hobject' := Node.legible (hchildren' _ (.head _))
        have htarget := parenthesize_injective (items_property hobject hfits)
          (items_property hobject' hfits') hview.1
        simp only [List.cons.injEq, true_and, and_true] at htarget
        exact .set (hsame (.head _) (.head _) htarget.1) (Token.same_of_name hfits hfits' htarget.2)
          (hsame (.tail _ (.head _)) (.tail _ (.head _)) hview.2)
  | this id keyword =>
      cases e' <;> cases hform
      next id' keyword' => exact .this (Token.same_of_keyword hfits hfits')
  | super id keyword method =>
      cases e' <;> cases hform
      next id' keyword' method' =>
        simp only [view, View.list.injEq, List.cons.injEq, true_and, and_true] at hview
        exact .super (Token.same_of_keyword hfits.1 hfits'.1)
          (Token.same_of_name hfits.2 hfits'.2 hview)

section Signatures

variable {name name' : Option Token} {params params' : List Token} {isGetter isGetter' : Bool}

theorem paren_notMem_name
    (hname : ∀ token ∈ name.toList, token.Spelled ∧ token.isIdentifier = true) :
    ∀ word ∈ (name.map (·.lexeme)).toList, '(' ∉ word.toList := by
  intro word hword
  cases name with
  | none => cases hword
  | some name =>
      obtain ⟨hspelled, hname⟩ := hname name (.head _)
      rw [List.mem_singleton.1 hword]
      exact (hspelled.named hname).2.notMem rfl

theorem paren_mem_parameters :
    ∀ word ∈ (if isGetter then [] else [parenthesize (params.map (·.lexeme))] : List String),
      ¬ '(' ∉ word.toList := by
  intro word hword
  cases isGetter with
  | true => cases hword
  | false => simp [List.mem_singleton.1 hword, toList_parenthesize]

theorem same_names (hname : ∀ token ∈ name.toList, token.Spelled ∧ token.isIdentifier = true)
    (hname' : ∀ token ∈ name'.toList, token.Spelled ∧ token.isIdentifier = true)
    (heq : (name.map (·.lexeme)).toList = (name'.map (·.lexeme)).toList) :
    Option.Rel Token.Same name name' := by
  cases name <;> cases name'
  · exact .none
  · cases heq
  · cases heq
  · exact .some (Token.same_of_name (hname _ (.head _)) (hname' _ (.head _)) (List.cons.inj heq).1)

/-- A getter is written without a list of parameters, so it differs from a function without
parameters. -/
theorem same_parameters (hparams : ∀ param ∈ params, param.Spelled ∧ param.isIdentifier = true)
    (hparams' : ∀ param ∈ params', param.Spelled ∧ param.isIdentifier = true)
    (hgetter : isGetter = true → params = []) (hgetter' : isGetter' = true → params' = [])
    (heq : (if isGetter then [] else [parenthesize (params.map (·.lexeme))] : List String) =
      if isGetter' then [] else [parenthesize (params'.map (·.lexeme))]) :
    isGetter = isGetter' ∧ List.Forall₂ Token.Same params params' := by
  have hsame : isGetter = isGetter' ∧ params.map (·.lexeme) = params'.map (·.lexeme) := by
    cases isGetter <;> cases isGetter'
    · exact ⟨rfl, parenthesize_injective (.map fun param h => isItem_name (hparams param h))
        (.map fun param h => isItem_name (hparams' param h))
        (List.cons.inj heq).1⟩
    · cases heq
    · cases heq
    · exact ⟨rfl, by rw [hgetter rfl, hgetter' rfl]⟩
  exact ⟨hsame.1, forall₂_of_map
    (fun param h param' h' => Token.same_of_name (hparams param h) (hparams' param' h')) hsame.2⟩

end Signatures

theorem FunctionDecl.toldApart {decl : FunctionDecl} (hclear : (Node.function decl).All Node.Clear)
    (ih : ∀ child ∈ (Node.function decl).children, child.ToldApart) :
    (Node.function decl).ToldApart := by
  intro decl' hclear' heq marks
  obtain ⟨hhere, hchildren⟩ := Node.all_iff.1 hclear
  obtain ⟨hhere', hchildren'⟩ := Node.all_iff.1 hclear'
  obtain ⟨name, params, body, isGetter⟩ := decl
  obtain ⟨name', params', body', isGetter'⟩ := decl'
  obtain ⟨htokens, hgetter⟩ := hhere.1
  obtain ⟨htokens', hgetter'⟩ := hhere'.1
  obtain ⟨hname, hparams⟩ := List.forall_mem_append.1 htokens
  obtain ⟨hname', hparams'⟩ := List.forall_mem_append.1 htokens'
  -- the body comes last, and a parameter list differs from a name by its parentheses
  obtain ⟨hfront, hbody⟩ := List.append_inj' heq rfl
  have hbodies :=
    parenthesize_injective
      (.consWord rfl (items_stmts fun child hchild => Node.legible (hchildren child hchild)))
    (.consWord rfl (items_stmts fun child hchild => Node.legible (hchildren' child hchild)))
    (List.cons.inj hbody).1
  obtain ⟨hnames, hlists⟩ :=
    append_inj_of_forall (paren_notMem_name hname) (paren_notMem_name hname') paren_mem_parameters
      paren_mem_parameters hfront
  obtain ⟨rfl, hsame⟩ := same_parameters hparams hparams' hgetter hgetter' hlists
  exact .intro false (same_names hname hname' hnames) hsame
    (alike_stmts ih hchildren' (List.cons_injective hbodies))

/-- Every member is written in parentheses. -/
theorem ClassBody.mem_of_mem_words (body : ClassBody) {word : String} (hword : word ∈ body.words) :
    '(' ∈ word.toList := by
  simp only [words, List.mem_append, List.mem_map] at hword
  rcases hword with ⟨e, -, rfl⟩ | ⟨decl, -, rfl⟩ | ⟨decl, -, rfl⟩
  · simp [toList_parenthesize]
  · simp [FunctionDecl.render_eq, toList_parenthesize]
  · simp [FunctionDecl.render_eq, toList_parenthesize]

/-- A text in parentheses that starts with a given word. -/
def Headed (head word : String) : Prop :=
  ∃ words, Items (head :: words) ∧ word = parenthesize (head :: words)

theorem Headed.head_eq {head head' word : String} (h : Headed head word) (h' : Headed head' word) :
    head = head' := by
  obtain ⟨words, hitems, rfl⟩ := h
  obtain ⟨words', hitems', heq⟩ := h'
  exact (List.cons.inj (parenthesize_injective hitems hitems' heq)).1

theorem headed_uses {traits : List Expr} (h : ∀ e ∈ traits, (Node.expr e).All Node.Clear) :
    ∀ word ∈ traits.map (fun e => parenthesize ["use", e.render]), Headed "use" word :=
  List.forall_mem_map.2 fun e he => ⟨[e.render], items_use (Node.legible (h e he)), rfl⟩

theorem headed_methods {keyword : String} (hkeyword : IsItem keyword) {decls : List FunctionDecl}
    (h : ∀ decl ∈ decls, (Node.function decl).All Node.Clear) :
    ∀ word ∈ decls.map (·.render keyword), Headed keyword word :=
  List.forall_mem_map.2 fun decl hdecl =>
    ⟨decl.words, .cons hkeyword (Node.legible (h decl hdecl)), decl.render_eq keyword⟩

theorem ClassBody.toldApart {body : ClassBody} (hclear : (Node.body body).All Node.Clear)
    (ih : ∀ child ∈ (Node.body body).children, child.ToldApart) :
    (Node.body body).ToldApart := by
  intro body' hclear' heq outside inside
  obtain ⟨traits, methods, classMethods⟩ := body
  obtain ⟨traits', methods', classMethods'⟩ := body'
  have hchildren := (Node.all_iff.1 hclear).2
  have hchildren' := (Node.all_iff.1 hclear').2
  simp only [Node.children, List.forall_mem_append] at ih hchildren hchildren'
  obtain ⟨⟨htraits, hmethods⟩, hclassMethods⟩ := ih
  obtain ⟨⟨hclearTraits, hclearMethods⟩, hclearClassMethods⟩ := hchildren
  obtain ⟨⟨htraits', hmethods'⟩, hclassMethods'⟩ := hchildren'
  have hother : ∀ {head head' : String} {words : List String}, head' ≠ head →
      (∀ word ∈ words, Headed head' word) → ∀ word ∈ words, ¬ Headed head word :=
    fun hne h word hword hhead => hne ((h word hword).head_eq hhead)
  have hclass : IsItem "class" := isItem_of_isWord rfl
  have hmethod : IsItem "method" := isItem_of_isWord rfl
  have hrest : ∀ {first second : List FunctionDecl},
      (∀ node ∈ first.map Node.function, node.All Node.Clear) →
      (∀ node ∈ second.map Node.function, node.All Node.Clear) →
      ∀ word ∈ first.map (·.render "class") ++ second.map (·.render "method"),
        ¬ Headed "use" word := fun h h' =>
    List.forall_mem_append.2 ⟨hother (by decide) (headed_methods hclass (List.forall_mem_map.1 h)),
      hother (by decide) (headed_methods hmethod (List.forall_mem_map.1 h'))⟩
  obtain ⟨huses, hmembers⟩ :=
    append_inj_of_forall (headed_uses (List.forall_mem_map.1 hclearTraits))
      (headed_uses (List.forall_mem_map.1 htraits'))
    (hrest hclearClassMethods hclearMethods) (hrest hclassMethods' hmethods') heq
  obtain ⟨hfirst, hsecond⟩ :=
    append_inj_of_forall (headed_methods hclass (List.forall_mem_map.1 hclearClassMethods))
    (headed_methods hclass (List.forall_mem_map.1 hclassMethods'))
    (hother (by decide) (headed_methods hmethod (List.forall_mem_map.1 hclearMethods)))
    (hother (by decide) (headed_methods hmethod (List.forall_mem_map.1 hmethods'))) hmembers
  exact .intro (alike_uses hclearTraits htraits htraits' huses)
    (alike_functions hmethod hclearMethods hmethods hmethods' hsecond)
    (alike_functions hclass hclearClassMethods hclassMethods hclassMethods' hfirst)

/-- Only a superclass puts a word without parentheses after the name of a class. -/
theorem superclass_words {superclass superclass' : Option Expr} {body body' : ClassBody}
    (heq : superclass.toList.flatMap (fun parent => ["<", parent.render]) ++ body.words =
      superclass'.toList.flatMap (fun parent => ["<", parent.render]) ++ body'.words) :
    Option.Rel (fun parent parent' => parent.render = parent'.render) superclass superclass' ∧
      body.words = body'.words := by
  have hmark : ∀ {body : ClassBody} {rest : List String}, body.words ≠ "<" :: rest :=
    fun {body rest} heq =>
      absurd (body.mem_of_mem_words (heq ▸ .head _ : "<" ∈ body.words)) (by decide)
  cases superclass with
  | none =>
      cases superclass' with
      | none => exact ⟨.none, heq⟩
      | some parent' => exact absurd heq hmark
  | some parent =>
      cases superclass' with
      | none => exact absurd heq.symm hmark
      | some parent' =>
          obtain ⟨htext, hmembers⟩ := List.cons.inj (List.cons.inj heq).2
          exact ⟨.some htext, hmembers⟩

theorem Stmt.toldApart {s : Stmt} (hclear : (Node.stmt s).All Node.Clear)
    (ih : ∀ child ∈ (Node.stmt s).children, child.ToldApart) :
    (Node.stmt s).ToldApart := by
  intro s' hclear' heq marks
  have hwords : s.words = s'.words :=
    parenthesize_injective (Node.legible hclear) (Node.legible hclear')
      (by rw [← render_eq, heq, render_eq])
  have hform : s.form = s'.form := Option.some_inj.1 (by rw [← form_words, hwords, form_words])
  obtain ⟨hhere, hchildren⟩ := Node.all_iff.1 hclear
  obtain ⟨hhere', hchildren'⟩ := Node.all_iff.1 hclear'
  have hfits := hhere.1
  have hfits' := hhere'.1
  have hexpr : ∀ {child child'}, .expr child ∈ (Node.stmt s).children →
      .expr child' ∈ (Node.stmt s').children → child.render = child'.render →
      Expr.Alike .elsewhere marks child child' :=
        fun hchild hchild' heq => ih _ hchild _ (hchildren' _ hchild') heq marks
  cases s with
  | expression value =>
      cases s' <;> cases hform
      next value' =>
        simp only [words, List.cons.injEq, true_and, and_true] at hwords
        exact .expression (hexpr (.head _) (.head _) hwords)
  | print value =>
      cases s' <;> cases hform
      next value' =>
        simp only [words, List.cons.injEq, true_and, and_true] at hwords
        exact .print (hexpr (.head _) (.head _) hwords)
  | «variable» name initial =>
      cases s' <;> cases hform
      next name' initial' =>
        simp only [words, List.cons.injEq, true_and] at hwords
        exact .variable (Token.same_of_name hfits hfits' hwords.1)
          (alike_expr? ih hchildren' hwords.2)
  | block statements =>
      cases s' <;> cases hform
      next statements' =>
        simp only [words, List.cons.injEq, true_and] at hwords
        exact .block false (alike_stmts ih hchildren' hwords)
  | ifElse condition thenBranch elseBranch =>
      cases s' <;> cases hform
      next condition' thenBranch' elseBranch' =>
        simp only [words, List.cons.injEq, true_and] at hwords
        obtain ⟨hcondition, hthen, helse⟩ := hwords
        obtain ⟨hfirst, hrest⟩ := List.forall_mem_cons.1 ih
        obtain ⟨hsecond, hthird⟩ := List.forall_mem_cons.1 hrest
        obtain ⟨hfirst', hrest'⟩ := List.forall_mem_cons.1 hchildren'
        obtain ⟨hsecond', hthird'⟩ := List.forall_mem_cons.1 hrest'
        exact .ifElse (hfirst condition' hfirst' hcondition marks)
          (hsecond thenBranch' hsecond' hthen marks) (alike_stmt? hthird hthird' helse)
  | whileLoop condition body =>
      cases s' <;> cases hform
      next condition' body' =>
        simp only [words, List.cons.injEq, true_and, and_true] at hwords
        exact .whileLoop (hexpr (.head _) (.head _) hwords.1)
          (ih _ (.tail _ (.head _)) body' (hchildren' _ (.tail _ (.head _))) hwords.2 marks)
  | forLoop initial condition increment body =>
      cases s' <;> cases hform
      next initial' condition' increment' body' =>
        simp only [words, List.cons.injEq, true_and, and_true] at hwords
        obtain ⟨hinitial, hcondition, hincrement, hbody⟩ := hwords
        simp only [Node.children, List.forall_mem_cons, List.forall_mem_append]
          at ih hchildren hchildren'
        obtain ⟨hlast, ⟨hfirst, hsecond⟩, hthird⟩ := ih
        obtain ⟨-, ⟨-, hclearSecond⟩, hclearThird⟩ := hchildren
        obtain ⟨hlast', ⟨hfirst', hsecond'⟩, hthird'⟩ := hchildren'
        exact .forLoop false (alike_initial hfirst hfirst' hinitial)
          (alike_clause hclearSecond hsecond hsecond' hhere.2.1 hhere'.2.1 hcondition)
          (alike_clause hclearThird hthird hthird' hhere.2.2 hhere'.2.2 hincrement)
          (hlast body' hlast' hbody (false :: marks))
  | jump keyword kind =>
      cases s' <;> cases hform
      next keyword' kind' =>
        obtain rfl : kind = kind' := by
          cases kind <;> cases kind' <;>
            first | rfl | exact absurd (List.cons.inj hwords).1 (by decide)
        exact .jump (Token.same_of_keyword hfits hfits')
  | function decl =>
      cases s' <;> cases hform
      next decl' =>
        simp only [words, List.cons.injEq, true_and] at hwords
        have halike := ih _ (.head _) decl' (hchildren' _ (.head _)) hwords marks
        cases halike with
        | intro mark hname hparams hbody => exact .function hname (.intro mark hname hparams hbody)
  | returnValue keyword value =>
      cases s' <;> cases hform
      next keyword' value' =>
        simp only [words, List.cons.injEq, true_and] at hwords
        exact .returnValue (Token.same_of_keyword hfits hfits') (alike_expr? ih hchildren' hwords)
  | classDecl name superclass body =>
      cases s' <;> cases hform
      next name' superclass' body' =>
        simp only [words, List.cons.injEq, true_and] at hwords
        obtain ⟨hname, hrest⟩ := hwords
        have hsame := Token.same_of_name hfits hfits' hname
        obtain ⟨hbody, hparent⟩ := List.forall_mem_cons.1 ih
        obtain ⟨hbody', hparent'⟩ := List.forall_mem_cons.1 hchildren'
        obtain ⟨hsuper, hmembers⟩ := superclass_words hrest
        cases hsuper with
        | none => exact .classDecl hsame (hbody body' hbody' hmembers marks (false :: marks))
        | @some parent parent' htext =>
            exact .subclassDecl hsame
              (hparent _ (.head _) parent' (hparent' _ (.head _)) htext marks)
              (hbody body' hbody' hmembers marks (false :: false :: marks))
  | traitDecl name body =>
      cases s' <;> cases hform
      next name' body' =>
        simp only [words, List.cons.injEq, true_and] at hwords
        exact .traitDecl (Token.same_of_name hfits hfits' hwords.1)
          (ih _ (.head _) body' (hchildren' _ (.head _)) hwords.2 marks (false :: marks))

/-- Clear trees that are written in the same way are the same up to ids and lines. -/
theorem Node.toldApart {node : Node} (h : node.All Node.Clear) : node.ToldApart := by
  induction node using Node.of_children with
  | h node ih =>
      have happart : ∀ child ∈ node.children, child.ToldApart :=
        fun child hchild => ih child hchild ((Node.all_iff.1 h).2 child hchild)
      cases node with
      | expr e => exact Expr.toldApart h happart
      | function decl => exact FunctionDecl.toldApart h happart
      | body members => exact ClassBody.toldApart h happart
      | stmt s => exact Stmt.toldApart h happart

end ToldApart

/-! ### Trees from plain tokens -/

/-- No string, no number that is infinite, and not the word `for`. -/
def Token.plain (token : Token) : Bool :=
  match token.kind with
  | .string _ | .keyword .forWord => false
  | .number value => match Binary.ofFloat value with
    | .infinite _ => false
    | _ => true
  | _ => true

theorem Node.plain_of_fits {node : Node} (h : node.Fits (·.plain = true)) : node.Plain := by
  unfold Plain
  split
  next text =>
    obtain ⟨token, hplain, hkind⟩ := h
    simp [Token.plain, hkind] at hplain
  next value =>
    obtain ⟨token, hplain, hkind⟩ := h
    intro negative hinfinite
    simp [Token.plain, hkind, hinfinite] at hplain
  next =>
    obtain ⟨token, hplain, hkind⟩ := h
    simp [Token.plain, hkind] at hplain
  next => trivial

section PlainTokens

variable {scanned : Scanned} (htokens : ∀ token ∈ scanned.tokens, token.plain = true)
  (hlast : scanned.last.plain = true)
include htokens hlast

theorem parseProgram_plain (firstId : Nat) :
    ∀ stmt ∈ (parseProgram scanned firstId).value, (Node.stmt stmt).All Node.Plain :=
  fun stmt hstmt node hnode =>
    Node.plain_of_fits (parseProgram_fits htokens hlast firstId stmt hstmt node hnode)

theorem parseExpression_plain (firstId : Nat) :
    ∀ expr, (parseExpression scanned firstId).value = some expr → (Node.expr expr).All Node.Plain :=
  fun expr hexpr node hnode =>
    Node.plain_of_fits (parseExpression_fits htokens hlast firstId expr hexpr node hnode)

end PlainTokens

/-! ### Trees that were read -/

/-- A node of a tree that was read from text, with or without errors. -/
inductive Node.IsRead (node : Node) : Prop
  | program {source : Source} {firstId : Nat} {stmt : Stmt}
      (hstmt : stmt ∈ (parseProgram (.ofSource source) firstId).value)
      (hnode : (Node.stmt stmt).Within node)
  | expression {source : Source} {firstId : Nat} {expr : Expr}
      (hexpr : (parseExpression (.ofSource source) firstId).value = some expr)
      (hnode : (Node.expr expr).Within node)

theorem Node.IsRead.fits {node : Node} (h : node.IsRead) : node.All (Node.Fits Token.Spelled) := by
  cases h with
  | @program source firstId stmt hstmt hnode =>
      obtain ⟨htokens, hlast⟩ := Scanned.spelled_ofSource source
      exact Node.All.within (parseProgram_fits htokens hlast firstId stmt hstmt) hnode
  | @expression source firstId expr hexpr hnode =>
      obtain ⟨htokens, hlast⟩ := Scanned.spelled_ofSource source
      exact Node.All.within (parseExpression_fits htokens hlast firstId expr hexpr) hnode

/-- Statements that are written in the same way are the same up to ids and lines, and so are
expressions. -/
theorem render_tells_trees_apart :
    (∀ s s' : Stmt, (Node.stmt s).IsRead → (Node.stmt s').IsRead → (Node.stmt s).All Node.Plain →
      (Node.stmt s').All Node.Plain →
      s.render = s'.render → Stmt.Alike .elsewhere [] s s') ∧
      ∀ e e' : Expr, (Node.expr e).IsRead → (Node.expr e').IsRead → (Node.expr e).All Node.Plain →
        (Node.expr e').All Node.Plain →
        e.render = e'.render → Expr.Alike .elsewhere [] e e' :=
  ⟨fun _ s' hread hread' hplain hplain' heq =>
    Node.toldApart (hread.fits.and hplain) s' (hread'.fits.and hplain') heq [],
    fun _ e' hread hread' hplain hplain' heq =>
      Node.toldApart (hread.fits.and hplain) e' (hread'.fits.and hplain') heq []⟩

def tightCall : Source := "-a.b(1)".toUTF8.data.toList

def spacedCall : Source := "\n- a . b( 1 )".toUTF8.data.toList

def printed (source : Source) : Source :=
  "print ".toUTF8.data.toList ++ source ++ ";".toUTF8.data.toList

theorem render_tells_trees_apart_spaced :
    (∃ s s', (parseProgram (.ofSource (printed tightCall)) 0).value = [s] ∧
      (parseProgram (.ofSource (printed spacedCall)) 5).value = [s'] ∧
      Stmt.Alike .elsewhere [] s s') ∧
    ∃ e e', (parseExpression (.ofSource tightCall) 0).value = some e ∧
      (parseExpression (.ofSource spacedCall) 5).value = some e' ∧
      Expr.Alike .elsewhere [] e e' := by
  constructor
  · obtain ⟨s, hs⟩ :=
      List.length_eq_one_iff.1
        (by decide +kernel : (parseProgram (.ofSource (printed tightCall)) 0).value.length = 1)
    obtain ⟨s', hs'⟩ :=
      List.length_eq_one_iff.1
        (by decide +kernel : (parseProgram (.ofSource (printed spacedCall)) 5).value.length = 1)
    have hrender : (parseProgram (.ofSource (printed tightCall)) 0).value.map Stmt.render =
        (parseProgram (.ofSource (printed spacedCall)) 5).value.map Stmt.render := by decide +kernel
    rw [hs, hs'] at hrender
    have hmem : s ∈ (parseProgram (.ofSource (printed tightCall)) 0).value := hs ▸ .head _
    have hmem' : s' ∈ (parseProgram (.ofSource (printed spacedCall)) 5).value := hs' ▸ .head _
    exact ⟨s, s', hs, hs',
      render_tells_trees_apart.1 s s' (.program hmem .refl) (.program hmem' .refl)
      (parseProgram_plain (by decide +kernel) (by decide +kernel) 0 s hmem)
      (parseProgram_plain (by decide +kernel) (by decide +kernel) 5 s' hmem')
      (List.cons.inj hrender).1⟩
  · obtain ⟨e, he⟩ :=
      Option.isSome_iff_exists.1
        (by decide +kernel : (parseExpression (.ofSource tightCall) 0).value.isSome = true)
    obtain ⟨e', he'⟩ :=
      Option.isSome_iff_exists.1
        (by decide +kernel : (parseExpression (.ofSource spacedCall) 5).value.isSome = true)
    have hrender : (parseExpression (.ofSource tightCall) 0).value.map Expr.render =
        (parseExpression (.ofSource spacedCall) 5).value.map Expr.render := by
      decide +kernel
    rw [he, he'] at hrender
    exact ⟨e, e', he, he',
      render_tells_trees_apart.2 e e' (.expression he .refl) (.expression he' .refl)
      (parseExpression_plain (by decide +kernel) (by decide +kernel) 0 e he)
      (parseExpression_plain (by decide +kernel) (by decide +kernel) 5 e' he')
      (Option.some.inj hrender)⟩

end TraitScript
