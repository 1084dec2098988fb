import TiledAutomata.Operator
import TiledAutomata.Proofs.Exact
import TiledAutomata.Proofs.Parsing
import TiledAutomata.Proofs.Synchronous
import TiledAutomata.Proofs.Torus

/-!
# Compilation with every access checked

Compilation once more, in a form that can go wrong: where it takes an element by its
position, there has to be one; where it divides, not by zero; where it applies an
operator, one that exists; where it takes the next token, there has to be a next one. This
form gives what compilation gives, for every descriptor, so none of that ever happens.
-/

namespace TiledAutomata

open List Option Placeholder Program

open Outcome

variable {s : Placeholder.Scope} {t : Token}

/-- A computation that goes wrong, or ends with a result or an error. -/
abbrev Checked (ε α : Type) := ExceptT ε Option α

namespace Checked

section Safe

variable {ε ε' α β : Type}

def safe (x : Except ε α) : Checked ε α := ExceptT.mk (some x)

def demand (x : Option α) : Checked ε α := ExceptT.lift x

def mapError (f : ε → ε') (x : Checked ε α) : Checked ε' α := ExceptT.adapt f x

theorem bind_safe {x : Checked ε α} {y : Except ε α} {f : α → Checked ε β} {g : α → Except ε β}
    (hx : x = safe y) (hf : ∀ a, y = .ok a → f a = safe (g a)) :
    (x >>= f) = safe (y >>= g) := by
  subst hx
  cases y with
  | ok a => exact hf a rfl
  | error e => rfl

theorem mapError_safe {x : Checked ε α} {y : Except ε α} (h : x = safe y) (f : ε → ε') :
    mapError f x = safe (y.mapError f) := by
  subst h
  rfl

theorem demand_bind {x : Option α} {a : α} {f : α → Checked ε β} (hx : x = some a) :
    (demand x >>= f) = f a := by
  subst hx
  rfl

theorem ite_safe {c : Prop} [Decidable c] {x x' : Checked ε α} {y y' : Except ε α}
    (hx : c → x = safe y) (hx' : ¬c → x' = safe y') :
    (if c then x else x') = safe (if c then y else y') := by
  split
  · exact hx ‹_›
  · exact hx' ‹_›

theorem mapM_some {f : α → Option β} {g : α → β} {xs : List α} (h : ∀ x ∈ xs, f x = some (g x)) :
    xs.mapM f = some (xs.map g) := by
  induction xs with
  | nil => rfl
  | cons x xs ih =>
    rw [mapM_cons, h x (by simp), ih fun y hy => h y (by simp [hy])]
    rfl

theorem mapM_filterMap {f : α → Option β} {xs : List α} (h : ∀ x ∈ xs, ∃ y, f x = some y) :
    xs.mapM f = some (xs.filterMap f) := by
  induction xs with
  | nil => rfl
  | cons x xs ih =>
    obtain ⟨y, hy⟩ := h x (by simp)
    rw [mapM_cons, ih fun z hz => h z (by simp [hz]), filterMap_cons, hy]
    rfl

end Safe

/-! ## Wiring -/

def wrap (i : Int) (n : Nat) : Option (Int × Nat) :=
  if i < 0 then if 0 ≤ i + n then some (-1, (i + n).toNat) else none
  else if (n : Int) ≤ i then some (1, (i - n).toNat)
  else some (0, i.toNat)

def designated (s : Site) (index : Nat) : Option String := do
  if s.type.outputList.length = 0 then none
  let o ← s.type.outputList[index % s.type.outputList.length]?
  return o.id

def connect (rows cols : Nat) (sites : List Site) (s : Site) (l : Link) (exs : List External) :
    Option (Binding × List External) := do
  let (relRow, row) ← wrap (s.row + (l.step s.row s.col).1) rows
  let (relCol, col) ← wrap (s.col + (l.step s.row s.col).2) cols
  let site ← sites[row * cols + col]?
  let output ← designated site l.output
  if relRow = 0 ∧ relCol = 0 then return (.inside (row * cols + col) output, exs)
  return (.outside exs.length, exs ++ [⟨relRow, relCol, row * cols + col, output⟩])

def connectSlots (rows cols : Nat) (sites : List Site) (s : Site) :
    List Link → List External → Option (List Binding × List External)
  | [], exs => some ([], exs)
  | l :: ls, exs => do
    let (b, exs) ← connect rows cols sites s l exs
    let (bs, exs) ← connectSlots rows cols sites s ls exs
    return (b :: bs, exs)

def connectSites (rows cols : Nat) (sites : List Site) (links : List Link) :
    List Site → List External → Option (List (List Binding) × List External)
  | [], exs => some ([], exs)
  | s :: ss, exs => do
    let (bs, exs) ← connectSlots rows cols sites s links exs
    let (bss, exs) ← connectSites rows cols sites links ss exs
    return (bs :: bss, exs)

def resolve (d : Descriptor) : Checked Flaw Wiring := do
  if d.unit.rowList.isEmpty then throw .emptyUnit
  let first ← demand d.unit.rowList[0]?
  if first.cellList.isEmpty then throw .emptyUnit
  let links ← match Link.ofStrategy? d.unit.strategy with
    | some ls => pure ls
    | none => throw (.neighbors d.unit.neighbors)
  let p ← safe (Wiring.placeRows d 0 ⟨[], 1⟩ d.unit.rowList)
  let rows := d.unit.rowList.length
  let cols := first.cellList.length
  let (inputs, externals) ← demand (connectSites rows cols p.sites links p.sites [])
  return ⟨d.unit.strategy, rows, cols, p.sites, inputs, externals⟩

theorem wrap_safe {i : Int} {n : Nat} (hn : 0 < n) (hi : -1 ≤ i) :
    wrap i n = some (Wiring.wrap i n) := by
  unfold wrap Wiring.wrap
  split
  · rw [if_pos (by omega)]
  · split <;> rfl

theorem designated_safe {s : Site} (h : s.type.outputList ≠ []) (index : Nat) :
    designated s index = some (Wiring.designated s index) := by
  unfold designated
  rw [if_neg (length_pos_iff.mpr h).ne', ← Wiring.designated_eq h]
  cases s.type.outputList[index % s.type.outputList.length]? <;> rfl

section Connecting

variable {rows cols : Nat} {sites : List Site} {strategy : String} {links : List Link}

section

variable (ht : Wiring.Tiled rows cols sites) (hs : Link.ofStrategy? strategy = some links)

include ht hs

theorem connect_safe {l : Link} (hl : l ∈ links) {s : Site} (hmem : s ∈ sites)
    (exs : List External) :
    connect rows cols sites s l exs = some (Wiring.connect rows cols sites s l exs) := by
  obtain ⟨k, hk⟩ := List.mem_iff_getElem?.mp hmem
  obtain ⟨hrow, hcol, -⟩ := ht.place_lt hk
  obtain ⟨⟨hr, -⟩, hc, -⟩ := Wiring.step_bounds hs hl s.row s.col
  have hsource := Wiring.aim_lt ht hs hl hmem
  have hsite := List.getElem?_eq_getElem hsource
  have houtput := designated_safe (ht.outputs _ (List.getElem_mem hsource)) l.output
  unfold connect Wiring.connect
  rw [wrap_safe (by omega) (by omega), wrap_safe (by omega) (by omega)]
  simp only [Wiring.aim] at hsite houtput
  simp only [Option.bind_eq_bind, Option.bind_some, hsite, houtput, List.getD_eq_getElem?_getD,
    Option.getD_some]
  split <;> rfl

theorem connectSlots_safe {ls : List Link} (hls : ∀ l ∈ ls, l ∈ links) {s : Site}
    (hmem : s ∈ sites) (exs : List External) : connectSlots rows cols sites s ls exs =
      some (Wiring.connectSlots rows cols sites s ls exs) := by
  induction ls generalizing exs with
  | nil => rfl
  | cons l ls ih =>
    rw [connectSlots, connect_safe ht hs (hls l (by simp)) hmem]
    simp only [bind_eq_bind, bind_some]
    rw [ih fun m hm => hls m (by simp [hm])]
    rfl

theorem connectSites_safe {ss : List Site} (hss : ∀ s ∈ ss, s ∈ sites) (exs : List External) :
    connectSites rows cols sites links ss exs =
      some (Wiring.connectSites rows cols sites links ss exs) := by
  induction ss generalizing exs with
  | nil => rfl
  | cons s ss ih =>
    rw [connectSites, connectSlots_safe ht hs (fun l hl => hl) (hss s (by simp))]
    simp only [bind_eq_bind, bind_some]
    rw [ih fun t ht => hss t (by simp [ht])]
    rfl

end

end Connecting

theorem resolve_safe (d : Descriptor) : resolve d = safe (Wiring.resolve d) := by
  unfold resolve Wiring.resolve
  cases hrows : d.unit.rowList with
  | nil =>
    have hcols : d.unit.cols = 0 := by simp [LogicalUnit.cols, hrows]
    rw [if_pos hcols]
    rfl
  | cons first rest =>
    have hcols : d.unit.cols = first.cellList.length := by simp [LogicalUnit.cols, hrows]
    simp only [List.isEmpty_cons, Bool.false_eq_true, if_false]
    rw [demand_bind (a := first) (by simp), ← hrows, ← hcols]
    by_cases hzero : d.unit.cols = 0
    · have hempty : first.cellList.isEmpty = true := by
        rw [List.isEmpty_iff, ← List.length_eq_zero_iff, ← hcols, hzero]
      rw [if_pos hempty, if_pos hzero]
      rfl
    · have hfull : ¬first.cellList.isEmpty = true := by
        rwa [List.isEmpty_iff, ← List.length_eq_zero_iff, ← hcols]
      rw [if_neg hfull, if_neg hzero]
      cases hstrategy : Link.ofStrategy? d.unit.strategy with
      | none => rfl
      | some links =>
        refine bind_safe rfl fun _ hlinks => bind_safe rfl fun p hp => ?_
        cases hlinks
        obtain ⟨_, hw⟩ := Wiring.resolve_ok (d := d) (by
          simp only [Wiring.resolve, if_neg hzero, hstrategy, hp]
          rfl)
        exact demand_bind (connectSites_safe hw.tiled hstrategy (fun s hs => hs) [])

/-! ## Placeholders -/

def bindingVar (l : Layout) : Binding → Option String
  | .inside s o => do
    let site ← l.wiring.sites[s]?
    return Layout.outputVar site.id o
  | .outside k => do
    let _ ← l.wiring.externals[k]?
    return Layout.externalVar k

def nth? {α : Type} (xs : List α) : Nat → Option α
  | 0 => none
  | n + 1 => xs[n]?

/-- The element whose number stands behind a word. It is taken where there are as many. -/
def numbered {α : Type} (word token : String) (xs : List α) : Option (Option α) :=
  match Placeholder.ordinal? word token with
  | none => some none
  | some n => if n ≤ xs.length then (nth? xs n).map some else some none

def inputVar (s : Placeholder.Scope) (token : String) : Option (Option String) := do
  match ← numbered "input" token s.inputs with
  | some b => return some (← bindingVar s.layout b)
  | none => return none

def outputVar (s : Placeholder.Scope) (token : String) : Option (Option String) := do
  match ← numbered "output" token s.site.type.outputList with
  | some o => return some (Layout.outputVar s.site.id o.id)
  | none => return none

def placeholder (s : Placeholder.Scope) (token : String) : Option (Option String) :=
  match s.site.paramVar? token <|> s.site.outputParamVar? s.output token with
  | some v => some (some v)
  | none => do
    match ← inputVar s token with
    | some v => return some v
    | none => outputVar s token

def expandPieces (s : Placeholder.Scope) : List Placeholder.Piece → Checked Unresolved (List Char)
  | [] => pure []
  | .plain c :: ps => do return c :: (← expandPieces s ps)
  | .token t :: ps => do
    match ← demand (placeholder s t) with
    | some v => return v.toList ++ (← expandPieces s ps)
    | none => throw ⟨s.site.id, t⟩

def expand (s : Placeholder.Scope) (text : String) : Checked Unresolved String := do
  return String.ofList (← expandPieces s (Placeholder.pieces 0 (Text.trim text).toList))

def Bound (l : Layout) (inputs : List Binding) : Prop :=
  ∀ b ∈ inputs, bindingVar l b = some (l.bindingVar b)

theorem ordinal?_pos {word token : String} {n : Nat}
    (h : Placeholder.ordinal? word token = some n) : 1 ≤ n := by
  unfold ordinal? at h
  dsimp only at h
  split at h
  · split at h
    · split at h
      · cases h
        omega
      · cases h
    · cases h
  · cases h

theorem numbered_safe {α : Type} (word token : String) (xs : List α) :
    numbered word token xs = some (do xs[(← Placeholder.ordinal? word token) - 1]?) := by
  unfold numbered
  cases hn : ordinal? word token with
  | none => rfl
  | some n =>
    obtain ⟨m, rfl⟩ := Nat.exists_eq_add_of_le' (ordinal?_pos hn)
    by_cases hm : m + 1 ≤ xs.length
    · simp [hm, nth?, getElem?_eq_getElem hm]
    · simp [hm, Nat.le_of_not_lt hm]

theorem inputVar_safe (hs : Bound s.layout s.inputs) (token : String) :
    inputVar s token = some (Placeholder.inputVar? s token) := by
  unfold inputVar inputVar?
  rw [numbered_safe]
  cases hn : ordinal? "input" token with
  | none => rfl
  | some n =>
    cases hb : s.inputs[n - 1]? with
    | none => simp [hb]
    | some b => simp [hb, hs b (mem_of_getElem? hb)]

theorem outputVar_safe (s : Placeholder.Scope) (token : String) :
    outputVar s token = some (Placeholder.outputVar? s token) := by
  unfold outputVar outputVar?
  rw [numbered_safe]
  cases hn : ordinal? "output" token with
  | none => rfl
  | some n => cases ho : s.site.type.outputList[n - 1]? <;> simp [ho]

theorem placeholder_safe (hs : Bound s.layout s.inputs) (token : String) :
    placeholder s token = some (Placeholder.resolve? s token) := by
  unfold placeholder resolve?
  rw [inputVar_safe hs, outputVar_safe]
  cases s.site.paramVar? token <;> cases s.site.outputParamVar? s.output token <;>
    cases inputVar? s token <;> rfl

theorem expandPieces_safe (hs : Bound s.layout s.inputs) (ps : List Placeholder.Piece) :
    expandPieces s ps = safe (Placeholder.expandPieces s ps) := by
  induction ps with
  | nil => rfl
  | cons p ps ih =>
    cases p with
    | plain c => exact bind_safe ih fun _ _ => rfl
    | token t =>
      rw [expandPieces, demand_bind (placeholder_safe hs t), Placeholder.expandPieces]
      cases Placeholder.resolve? s t with
      | some v => exact bind_safe ih fun _ _ => rfl
      | none => rfl

theorem expand_safe (hs : Bound s.layout s.inputs) (text : String) :
    expand s text = safe (Placeholder.expand s text) :=
  bind_safe (expandPieces_safe hs _) fun _ _ => rfl

/-! ## Readers -/

def compound (text : String) : Option (Option BinaryOp) :=
  if text = "=" then some none
  else (BinaryOp.ofText? (String.ofList text.toList.dropLast)).map some

def run : Reader.State → List Token → Checked SyntaxError (Expr × List Token)
  | _, [] => demand none
  | s, t :: ts =>
    match Reader.step s t with
    | .take s' => run s' ts
    | .done e => return (e, t :: ts)
    | .fail f => throw ⟨t.pos, f⟩

def ended (e : Expr) : List Token → Checked SyntaxError Expr
  | [] => demand none
  | t :: _ => if t.kind = .eof then return e else throw ⟨t.pos, .trailing t.text⟩

def expression (ts : List Token) : Checked SyntaxError Expr := do
  let (e, rest) ← run .start ts
  let t ← demand rest.head?
  if t.kind = .semicolon then ended e rest.tail else ended e rest

def assigned (declares : Bool) (target : String) (t : Token) : Checked SyntaxError Reader.Phase :=
  if t.kind = .assign then do
    let op ← demand (compound t.text)
    return .value declares target op .start
  else throw ⟨t.pos, Reader.wanted .assignment t⟩

def assigns : Reader.Phase → List Token → Checked SyntaxError (List Assign)
  | _, [] => demand none
  | .start, t :: ts =>
    match t.kind with
    | .eof => pure []
    | .semicolon => assigns .start ts
    | .ident => assigns (if t.text = "int" then .int else .name false t.text) ts
    | _ => throw ⟨t.pos, Reader.wanted .identifier t⟩
  | .int, t :: ts =>
    if t.kind = .ident then assigns (.name true t.text) ts
    else do assigns (← assigned false "int" t) ts
  | .name d x, t :: ts => do assigns (← assigned d x t) ts
  | .value d x o s, t :: ts =>
    match Reader.step s t with
    | .take s' => assigns (.value d x o s') ts
    | .fail f => throw ⟨t.pos, f⟩
    | .done e =>
      match t.kind with
      | .semicolon => do return ⟨d, x, o, e⟩ :: (← assigns .start ts)
      | .eof => pure [⟨d, x, o, e⟩]
      | _ => throw ⟨t.pos, Reader.wanted .semicolon t⟩

def parseExpr (src : Text.Bytes) : Checked SyntaxError Expr := do
  expression (← safe (tokenize src))

def parseAssigns (src : Text.Bytes) : Checked SyntaxError (List Assign) := do
  assigns .start (← safe (tokenize src))

section Readers

open Token (Ended)

variable {ts : List Token}

/-- The end is never taken, so a reader stops at it or before. -/
theorem run_safe (hts : Ended ts) (s : Reader.State) : run s ts = safe (Reader.run s ts) ∧
    ∀ e rest, Reader.run s ts = .ok (e, rest) → Ended rest := by
  induction hts generalizing s with
  | @stop t h =>
    rw [run, Reader.run]
    cases hs : Reader.step s t with
    | take s' => exact absurd hs (Reader.step_eof h s s')
    | done e =>
      refine ⟨rfl, fun _ _ heq => ?_⟩
      cases heq
      exact .stop h
    | fail f => exact ⟨rfl, fun _ _ heq => by cases heq⟩
  | @cons t ts h hts ih =>
    rw [run, Reader.run]
    cases Reader.step s t with
    | take s' => exact ih s'
    | done e =>
      refine ⟨rfl, fun _ _ heq => ?_⟩
      cases heq
      exact .cons h hts
    | fail f => exact ⟨rfl, fun _ _ heq => by cases heq⟩

theorem ended_safe (hts : Ended ts) (e : Expr) : ended e ts = safe (Reader.ended e ts) := by
  cases hts <;> exact ite_safe (fun _ => rfl) fun _ => rfl

theorem expression_safe (hts : Ended ts) : expression ts = safe (Reader.expression ts) := by
  obtain ⟨hrun, hended⟩ := run_safe hts .start
  refine bind_safe hrun fun r hr => ?_
  obtain ⟨e, rest⟩ := r
  have hrest := hended e rest hr
  match rest, hrest with
  | t :: more, hrest =>
    refine (demand_bind rfl).trans (ite_safe (fun hk => ?_) fun _ => ended_safe hrest e)
    exact ended_safe (hrest.tail (by rw [hk]; decide)) e

theorem compound_safe (hts : Ended (t :: ts)) (hk : t.kind = .assign) :
    compound t.text = some (Reader.assignOp t.text) := by
  obtain ⟨o, ho⟩ := hts.mark hk
  cases o with
  | none => rw [ho]; decide
  | some o =>
    have hplain : Assign.mark (some o) ≠ "=" := by cases o <;> decide
    have hop := Reader.assignOp_mark (some o)
    rw [ho, compound, if_neg hplain, hop]
    unfold Reader.assignOp at hop
    rw [hop]
    rfl

theorem assigned_safe (hts : Ended (t :: ts)) (d : Bool) (x : String) :
    assigned d x t = safe (Reader.assigned d x t) :=
  ite_safe (fun hk => demand_bind (compound_safe hts hk)) fun _ => rfl

theorem assigned_ne_eof {d : Bool} {x : String} {ph : Reader.Phase}
    (h : Reader.assigned d x t = .ok ph) : t.kind ≠ .eof := by
  unfold Reader.assigned at h
  split at h
  · rename_i hk
    rw [hk]
    decide
  · cases h

theorem assigns_safe (hts : Ended ts) (ph : Reader.Phase) :
    assigns ph ts = safe (Reader.assigns ph ts) := by
  -- by the tokens that are left; the end is never taken, so there is always a next one
  induction ts generalizing ph with
  | nil => exact absurd rfl hts.ne_nil
  | cons t ts ih =>
    have hrest : t.kind ≠ .eof → ∀ ph, assigns ph ts = safe (Reader.assigns ph ts) :=
      fun hk => ih (hts.tail hk)
    cases ph with
    | start =>
      rw [assigns, Reader.assigns]
      cases hk : t.kind with
      | semicolon | ident => exact hrest (by simp [hk]) _
      | _ => rfl
    | int =>
      rw [assigns, Reader.assigns]
      refine ite_safe (fun hk => hrest (by simp [hk]) _) fun _ => ?_
      exact bind_safe (assigned_safe hts _ _) fun ph hph => hrest (assigned_ne_eof hph) ph
    | name d x =>
      exact bind_safe (assigned_safe hts d x) fun ph hph => hrest (assigned_ne_eof hph) ph
    | value d x o s =>
      rw [assigns, Reader.assigns]
      cases hs : Reader.step s t with
      | take s' => exact hrest (fun hk => Reader.step_eof hk s s' hs) _
      | fail f => rfl
      | done e =>
        cases hk : t.kind with
        | semicolon => exact bind_safe (hrest (by simp [hk]) _) fun _ _ => rfl
        | _ => rfl

end Readers

theorem parseExpr_safe (src : Text.Bytes) : parseExpr src = safe (Expr.parse src) :=
  bind_safe rfl fun _ h => expression_safe (tokenize_ended h)

theorem parseAssigns_safe (src : Text.Bytes) : parseAssigns src = safe (Assign.parse src) :=
  bind_safe rfl fun _ h => assigns_safe (tokenize_ended h) .start

/-! ## Programs -/

def readingsOf (l : Layout) : Option (List Program.Reading) :=
  l.wiring.externals.zipIdx.mapM fun (e, k) => do
    let s ← l.wiring.sites[e.source]?
    return ⟨Layout.externalVar k, Layout.outputVar s.id e.output, e.relRow, e.relCol⟩

def compileBefore (s : Placeholder.Scope) (o : Output) : Checked Error (List Assign) :=
  if o.before = "" then pure []
  else do
    let text ← mapError .unresolved (expand s o.before)
    mapError (fun e => .within ("codegen: cell " ++ s.site.id ++ " output " ++ o.id ++
      " before update") (.source e)) (parseAssigns (Text.bytes text))

def compileUpdate (s : Placeholder.Scope) (o : Output) : Checked Error (Option Assign) :=
  if o.update = "" then pure none
  else do
    let text ← mapError .unresolved (expand s o.update)
    let e ← mapError (fun e => .within ("codegen: cell " ++ s.site.id ++ " output " ++ o.id)
      (.source e)) (parseExpr (Text.bytes text))
    return some ⟨false, Layout.outputVar s.site.id o.id, none, e⟩

def compileOutput (l : Layout) (s : Site) (inputs : List Binding) (o : Output) :
    Checked Error Program.Compiled := do
  let scope : Placeholder.Scope := ⟨l, s, inputs, o.id⟩
  let before ← compileBefore scope o
  let update ← compileUpdate scope o
  return ⟨before, update, o.constant⟩

def compileOutputs (l : Layout) (s : Site) (inputs : List Binding) :
    List Output → Checked Error (List Program.Compiled)
  | [] => pure []
  | o :: os => do
    let c ← compileOutput l s inputs o
    return c :: (← compileOutputs l s inputs os)

def compileSites (l : Layout) : List (Site × List Binding) → Checked Error (List Program.Compiled)
  | [] => pure []
  | (s, bs) :: rest => do
    let cs ← compileOutputs l s bs s.type.outputList
    return cs ++ (← compileSites l rest)

def buildProgram (d : Descriptor) (l : Layout) : Checked Error Program := do
  let rs ← demand (readingsOf l)
  let fixedVars := l.names ++ rs.map (·.name)
  let compiled ← compileSites l (l.wiring.sites.zip l.wiring.inputs)
  let locals := Program.addLocals fixedVars
    (l.wiring.sites.flatMap Site.varNames ++ Program.declared compiled)
  let vars := fixedVars ++ locals
  let classified := compiled.map (Program.classify l (Program.assignedBefore compiled))
  let constant := Program.statements classified true
  let dynamic := Program.statements classified false
  safe (Program.checkNames vars constant)
  safe (Program.checkNames vars dynamic)
  let stored ← demand ((Program.outputVars l).mapM l.slot?)
  return {
    width := d.width
    height := d.height
    iterations := d.effectiveIterations
    addressing := .ofText d.effectiveAddressing
    layout := l
    readings := rs
    vars, locals, constant, dynamic, stored }

section Programs

variable {d : Descriptor} {w : Wiring} {l : Layout}

theorem inputs_bound (hw : Wiring.resolve d = .ok w) (hl : l.wiring = w) {bs : List Binding}
    (hbs : bs ∈ w.inputs) : Bound l bs := by
  intro b hb
  obtain ⟨links, hc⟩ := Wiring.resolve_ok hw
  obtain ⟨s, hs, link, hlink, hbinds⟩ := hc.slot hbs hb
  cases b with
  | inside i o =>
    have hi : i < w.sites.length := hbinds.2.1 ▸ Wiring.aim_lt hc.tiled hc.strategy hlink hs
    simp [bindingVar, Layout.bindingVar, hl, List.getElem?_eq_getElem hi]
  | outside j =>
    have hj := hbinds.2
    simp [bindingVar, Layout.bindingVar, hl, hj]

theorem readingsOf_safe (hw : Wiring.resolve d = .ok w) (hl : l.wiring = w) :
    readingsOf l = some (Program.readingsOf l) := by
  refine mapM_some fun ek hek => ?_
  obtain ⟨e, k⟩ := ek
  have he : e ∈ w.externals := hl ▸ (mem_zipIdx' hek).2 ▸ getElem_mem _
  obtain ⟨s, hs, -⟩ := (Wiring.externals_real hw e he).source
  simp [hl, hs, getD_eq_getElem?_getD]

theorem compileBefore_safe (hs : Bound s.layout s.inputs) (o : Output) :
    compileBefore s o = safe (Program.compileBefore s o) := by
  refine ite_safe (fun _ => rfl) fun _ => ?_
  exact bind_safe (mapError_safe (expand_safe hs _) _) fun text _ =>
    mapError_safe (parseAssigns_safe _) _

theorem compileUpdate_safe (hs : Bound s.layout s.inputs) (o : Output) :
    compileUpdate s o = safe (Program.compileUpdate s o) := by
  refine ite_safe (fun _ => rfl) fun _ => ?_
  exact bind_safe (mapError_safe (expand_safe hs _) _) fun text _ =>
    bind_safe (mapError_safe (parseExpr_safe _) _) fun _ _ => rfl

theorem compileOutputs_safe {s : Site} {inputs : List Binding}
    (hs : Bound l inputs) (os : List Output) :
    compileOutputs l s inputs os = safe (Program.compileOutputs l s inputs os) := by
  induction os with
  | nil => rfl
  | cons o os ih =>
    have ho : compileOutput l s inputs o = safe (Program.compileOutput l s inputs o) :=
      bind_safe (compileBefore_safe hs o) fun _ _ =>
        bind_safe (compileUpdate_safe hs o) fun _ _ => rfl
    exact bind_safe ho fun _ _ => bind_safe ih fun _ _ => rfl

theorem compileSites_safe {ss : List (Site × List Binding)}
    (hs : ∀ s ∈ ss, Bound l s.2) :
    compileSites l ss = safe (Program.compileSites l ss) := by
  induction ss with
  | nil => rfl
  | cons s ss ih =>
    exact bind_safe (compileOutputs_safe (hs s (by simp)) _) fun _ _ =>
      bind_safe (ih fun t ht => hs t (by simp [ht])) fun _ _ => rfl

theorem buildProgram_safe (hw : Wiring.resolve d = .ok w) (hl : Layout.build w = .ok l)
    (d' : Descriptor) : buildProgram d' l = safe (Program.build d' l) := by
  have hwiring := Layout.wiring_of_build hl
  have hstored : (outputVars l).mapM l.slot? =
      some ((outputVars l).filterMap l.slot?) :=
    mapM_filterMap fun x hx => slot?_of_mem (Layout.outputVars_sub hl hx)
  have hbound : ∀ s ∈ l.wiring.sites.zip l.wiring.inputs, Bound l s.2 := by
    rintro ⟨s, bs⟩ hs
    exact inputs_bound hw hwiring (hwiring ▸ (of_mem_zip hs).2)
  exact (demand_bind (readingsOf_safe hw hwiring)).trans
    (bind_safe (compileSites_safe hbound) fun cs _ => bind_safe rfl fun _ _ =>
      bind_safe rfl fun _ _ => demand_bind hstored)

end Programs

/-! ## Plans -/

def fold : Expr → Option Expr
  | .unary o x => do
    match ← fold x with
    | .number v => return .number (← (Operator.applyUnary o.text v).toOption)
    | x' => return .unary o x'
  | .binary o x y => do
    match ← fold x, ← fold y with
    | .number a, .number b => return .number (← (Operator.applyBinary o.text a b).toOption)
    | x', y' => return .binary o x' y'
  | .cond c t e => do
    match ← fold c with
    | .number v => if v != 0 then fold t else fold e
    | c' => return .cond c' (← fold t) (← fold e)
  | .input i => do return .input (← fold i)
  | e => some e

theorem applyUnary_safe (o : UnaryOp) (a : Word) :
    (Operator.applyUnary o.text a).toOption = some (o.apply a) := by
  cases o <;> rfl

theorem applyBinary_safe (o : BinaryOp) (a b : Word) :
    (Operator.applyBinary o.text a b).toOption = some (o.apply a b) := by
  cases o <;> rfl

/-- The binary operators that can be applied are those that have a level to be read with. -/
theorem applyBinary_known (op : String) (a b : Word) :
    (Operator.applyBinary op a b).toOption = (BinaryOp.ofText? op).map fun o => o.apply a b := by
  cases h : BinaryOp.ofText? op with
  | some o =>
    obtain rfl := BinaryOp.ofText?_eq_some.mp h
    exact applyBinary_safe o a b
  | none =>
    unfold Operator.applyBinary
    split <;> first | rfl | exact absurd h (by decide)

theorem applyUnary_known (op : String) (a : Word) :
    (Operator.applyUnary op a).toOption = (UnaryOp.ofText? op).map fun o => o.apply a := by
  cases h : UnaryOp.ofText? op with
  | some o =>
    obtain rfl := UnaryOp.ofText?_eq_some.mp h
    exact applyUnary_safe o a
  | none =>
    unfold Operator.applyUnary
    split <;> first | rfl | exact absurd h (by decide)

theorem fold_safe (e : Expr) : fold e = some e.fold := by
  induction e with
  | number v => rfl
  | ident x => rfl
  | inputLength => rfl
  | input i ih => simp [fold, Expr.fold, ih]
  | unary o x ih =>
    simp only [fold, Expr.fold, ih, bind_eq_bind, bind_some]
    cases x.fold <;> simp [applyUnary_safe]
  | binary o x y ihx ihy =>
    simp only [fold, Expr.fold, ihx, ihy, bind_eq_bind, bind_some]
    cases x.fold <;> cases y.fold <;> simp [applyBinary_safe]
  | cond c t e ihc iht ihe =>
    simp only [fold, Expr.fold, ihc, iht, ihe, bind_eq_bind, bind_some]
    cases c.fold with
    | number v => exact (apply_ite some _ _ _).symm
    | _ => rfl

def compileExpr (r : Resolver) (e : Expr) : Checked UnknownIdent Code :=
  match _he : fold e with
  | none => demand none
  | some (.number v) => pure fun _ => v
  | some (.ident x) => do
    let i ← safe (r.index x)
    return fun f => f.vars.getD i 0
  | some .inputLength => pure fun f => Int32.ofNat f.input.size
  | some (.input i) => do
    let i ← compileExpr r i
    return fun f => f.input.cyclic (i f)
  | some (.unary o x) => do
    let x ← compileExpr r x
    return fun f => o.apply (x f)
  | some (.binary o x y) => do
    let x ← compileExpr r x
    let y ← compileExpr r y
    return o.code x y
  | some (.cond c t e) => do
    let c ← compileExpr r c
    let t ← compileExpr r t
    let e ← compileExpr r e
    return fun f => if c f != 0 then t f else e f
termination_by e.nodes.length
decreasing_by
  all_goals
    have hle := Expr.nodes_le_of_fold (Option.some.inj ((fold_safe _).symm.trans _he))
    simp only [Expr.nodes, length_cons, length_append] at hle
    omega

theorem compileExpr_safe (r : Resolver) (e : Expr) :
    compileExpr r e = safe (e.compile r) := by
  fun_induction Expr.compile r e with
  | case1 e v he =>
    rw [compileExpr, fold_safe, he]
    rfl
  | case2 e x he =>
    rw [compileExpr, fold_safe, he]
    exact bind_safe rfl fun _ _ => rfl
  | case3 e he =>
    rw [compileExpr, fold_safe, he]
    rfl
  | case4 e i he ih =>
    rw [compileExpr, fold_safe, he]
    exact bind_safe ih fun _ _ => rfl
  | case5 e o x he ih =>
    rw [compileExpr, fold_safe, he]
    exact bind_safe ih fun _ _ => rfl
  | case6 e o x y he ihx ihy =>
    rw [compileExpr, fold_safe, he]
    exact bind_safe ihx fun _ _ => bind_safe ihy fun _ _ => rfl
  | case7 e c t z he ihc iht ihz =>
    rw [compileExpr, fold_safe, he]
    exact bind_safe ihc fun _ _ => bind_safe iht fun _ _ => bind_safe ihz fun _ _ => rfl

def compileAssign (r : Resolver) (a : Assign) : Checked UnknownIdent (Frame → Frame) := do
  let i ← safe (r.index a.target)
  let v ← compileExpr r a.value
  return fun f =>
    let w := match a.op with
      | some o => o.apply (f.vars.getD i 0) (v f)
      | none => v f
    { f with vars := f.vars.setIfInBounds i w }

def compileAll (r : Resolver) : List Assign → Checked UnknownIdent (List (Frame → Frame))
  | [] => pure []
  | a :: as => do
    let x ← compileAssign r a
    return x :: (← compileAll r as)

def inletOf (p : Program) (units : Nat) (r : Program.Reading) : Option Plan.Inlet := do
  let var ← p.varIndex? r.name
  let source ← p.varIndex? r.source
  let reads ← (List.range units).mapM fun u =>
    (p.neighbor? (Int64.ofNat u) r.relRow r.relCol).map Int64.toInt
  return ⟨var, source, reads.toArray⟩

def buildPlan (p : Program) : Checked UnknownIdent Plan := do
  let constant ← compileAll p.varIndex? p.constant
  let dynamic ← compileAll p.varIndex? p.dynamic
  let units := p.units.toInt.toNat
  let inlets ← demand (p.readings.mapM (inletOf p units))
  return {
    units
    slots := p.layout.size
    frameSize := p.frameSize
    iterations := p.iterations.toInt.toNat
    constant, dynamic, inlets
    stored := p.stored }

theorem compileAssign_safe (r : Resolver) (a : Assign) :
    compileAssign r a = safe (a.compile r) :=
  bind_safe rfl fun _ _ => bind_safe (compileExpr_safe r a.value) fun _ _ => rfl

theorem compileAll_safe (r : Resolver) (as : List Assign) :
    compileAll r as = safe (Plan.compileAll r as) := by
  induction as with
  | nil => rfl
  | cons a as ih =>
    exact bind_safe (compileAssign_safe r a) fun _ _ => bind_safe ih fun _ _ => rfl

/-- A unit has neighbors wherever the grid has units, whatever its sides are. -/
theorem inletOf_safe {p : Program} {r : Program.Reading} (hname : r.name ∈ p.vars)
    (hsource : r.source ∈ p.vars) :
    inletOf p p.unitCount r = some (Plan.inletOf p p.unitCount r) := by
  obtain ⟨i, hi⟩ := varIndex?_of_mem hname
  obtain ⟨j, hj⟩ := varIndex?_of_mem hsource
  have hreads : (range p.unitCount).mapM (fun u =>
      (p.neighbor? (Int64.ofNat u) r.relRow r.relCol).map Int64.toInt) =
      some ((range p.unitCount).map fun u =>
        ((p.neighbor? (Int64.ofNat u) r.relRow r.relCol).getD 0).toInt) := by
    refine mapM_some fun u hu => ?_
    have hpos : 0 < p.unitCount := Nat.zero_lt_of_lt (mem_range.mp hu)
    obtain ⟨n, hn⟩ := neighbor?_some hpos (Int64.ofNat u) r.relRow r.relCol
    rw [hn]
    rfl
  have hrange : Array.range p.unitCount = (range p.unitCount).toArray := by
    apply Array.toList_inj.mp
    simp
  simp only [inletOf, Plan.inletOf, hi, hj, hreads, bind_eq_bind, bind_some,
    getD_some, hrange, map_toArray]
  rfl

theorem buildPlan_safe {d d' : Descriptor} {w : Wiring} {l : Layout} {p : Program}
    (hw : Wiring.resolve d = .ok w) (hl : Layout.build w = .ok l)
    (hp : Program.build d' l = .ok p) : buildPlan p = safe (Plan.build p) := by
  obtain ⟨cs, hb⟩ := build_ok hp
  refine bind_safe (compileAll_safe _ _) fun constant _ =>
    bind_safe (compileAll_safe _ _) fun dynamic _ => demand_bind (mapM_some fun r hr => ?_)
  refine inletOf_safe (reading_mem_vars hb hr) (mem_vars_of_name hb ?_)
  rw [hb.readings] at hr
  exact Layout.outputVars_sub hl (Layout.reading_source hl (Wiring.externals_real hw) hr)

/-! ## Automata -/

def build (d : Descriptor) : Checked Error Automaton := do
  let w ← mapError (fun f => .within "topology" (.flaw f)) (resolve d)
  let l ← safe ((Layout.build w).mapError .duplicate)
  let program ← buildProgram d l
  let plan ← mapError .unknownIdent (buildPlan program)
  return ⟨d, d.fingerprint, program, plan⟩

theorem build_safe (d : Descriptor) : build d = safe (Automaton.build d) := by
  refine bind_safe (mapError_safe (resolve_safe d) _) fun w hw => bind_safe rfl fun l hl => ?_
  have hw := mapError_ok.mp hw
  have hl := mapError_ok.mp hl
  exact bind_safe (buildProgram_safe hw hl d) fun p hp =>
    bind_safe (mapError_safe (buildPlan_safe hw hl hp) _) fun _ _ => rfl

end Checked

end TiledAutomata
