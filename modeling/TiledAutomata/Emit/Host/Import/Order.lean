import TiledAutomata.Emit.Host.Import.Basic

/-!
# The order of imports

Imports are sorted in each run of lines. One that moves takes the place of the one that stood
there and keeps its comments, and lines are joined where that would leave a gap. An empty line
comes between imports of the library and others.
-/

namespace TiledAutomata.Emit.Host

/-- Imports of the library come first, then those of others, and those of one platform last. -/
def importRank (path : String) : Nat :=
  if path.startsWith "appengine" then 2
  else if ((path.splitOn "/").headD "").contains '.' then 1
  else 0

structure Run where
  groups : List Group
  lines : LineTable

namespace Run

def le (r : Run) (a b : Spec) : Bool :=
  let note (s : Spec) : String :=
    ((s.importNote.bind fun n => r.groups.find? fun g => g.number = n).map fun g =>
      "\n".intercalate (g.comments.map (·.text))).getD ""
  let (x, y) := (a.importPath, b.importPath)
  if importRank x != importRank y then importRank x < importRank y
  else if x != y then x < y
  else if a.importName != b.importName then a.importName < b.importName
  else note a ≤ note b

def isRepeated (a b : Spec) : Bool :=
  a.importPath = b.importPath && a.importName = b.importName && a.importNote.isNone

def withoutRepeated : List (Nat × Spec) → LineTable → List (Nat × Spec) × LineTable
  | a :: b :: ss, t =>
    if isRepeated a.2 b.2 then withoutRepeated (b :: ss) (t.join (t.saidLine a.2.place))
    else
      let (ss, t) := withoutRepeated (b :: ss) t
      (a :: ss, t)
  | ss, t => (ss, t)

/-- Gives imports the places of those that stood there, and each its comments behind it. The next
one starts behind them. Tells the new places of groups of comments. -/
def place (owned : List (Nat × Group)) : List (Place × Place) → List (Nat × Spec) →
    List Spec × List Group
  | (start, stop) :: spans, (key, s) :: ss =>
    let mine := (owned.filter fun (k, _) => k = key).map fun (_, g) =>
      { g with comments := g.comments.map fun c => { c with place := stop } }
    let next := ((mine.getLast?).map Group.stop).getD stop
    let spans := match spans with
      | _ :: rest => (next, next) :: rest
      | [] => []
    let (specs, groups) := place owned spans ss
    (s.between start stop :: specs, mine ++ groups)
  | _, _ => ([], [])

def joinLines (first : Place) : List Place → LineTable → LineTable
  | [], t => t
  | p :: ps, t =>
    let n := t.saidLine p - t.saidLine first
    joinLines first ps (n.fold (fun i _ t => t.join (t.saidLine first + (n - 1 - i))) t)

def sort (r : Run) (specs : List Spec) : List Spec × Run :=
  match specs, specs.getLast? with
  | s :: _ :: _, some last =>
    let spans := specs.map fun s => (s.place, s.stop)
    let lastLine := r.lines.saidLine last.stop
    let before := r.groups.takeWhile fun g => g.place < s.place
    let range := (r.groups.drop before.length).takeWhile fun g =>
      r.lines.saidLine g.stop ≤ lastLine
    let after := r.groups.drop (before.length + range.length)
    let keyed := specs.zipIdx.map fun (s, i) => (i, s)
    let owned := range.map fun g =>
      (((keyed.drop 1).takeWhile fun (_, s) => s.place ≤ g.place).length, g)
    let sorted := keyed.mergeSort fun a b => r.le a.2 b.2
    let (kept, lines) := withoutRepeated sorted r.lines
    let (specs, moved) := place owned spans kept
    let lost := range.filter fun g => !moved.any fun m => m.number = g.number
    let groups := before ++ (moved ++ lost).mergeSort (fun a b => a.place ≤ b.place) ++ after
    let lines := match specs with
      | f :: others => joinLines f.place (others.map Spec.place) lines
      | [] => lines
    (specs, { groups, lines })
  | _, _ => (specs, r)

end Run

namespace File

def sortDecl (d : Decl) (r : Run) : Decl × Run :=
  let runs := d.specs.splitBy fun a b => !(r.lines.saidLine a.stop + 1 < r.lines.saidLine b.place)
  let (specs, r) := runs.foldl (fun (done, r) run =>
    let (ss, r) := r.sort run
    (done ++ ss, r)) ([], r)
  let lines := match specs.getLast? with
    | some s =>
      let line := r.lines.line d.closing
      if r.lines.line s.place + 1 < line then r.lines.join (line - 1) else r.lines
    | none => r.lines
  (d.withSpecs specs, { r with lines })

/-- A file with its imports sorted. A declaration of none is left out. -/
def sortImports (f : File) : File :=
  let front := f.members.takeWhile fun m => m.imports?.isSome
  let (front, r) := front.foldl (fun (done, r) m =>
    match m.imports? with
    | some d =>
      if d.specs.isEmpty then (done, r)
      else if d.opening = 0 then (done ++ [m], r)
      else
        let (d, r) := sortDecl d r
        (done ++ [.decl d], r)
    | none => (done ++ [m], r)) ([], (⟨f.groups, f.lines⟩ : Run))
  { f with
    members := front ++ f.members.dropWhile fun m => m.imports?.isSome
    groups := r.groups
    lines := r.lines }

/-- The paths before which an empty line is due, since they are of another rank than those before
them in the same run of lines. -/
def importBreaks (f : File) : List String :=
  let front := (f.members.takeWhile fun m => m.imports?.isSome).filterMap Member.imports?
  front.flatMap fun d =>
    let runs := d.specs.splitBy fun a b =>
      !(f.lines.saidLine a.pathPlace + 1 < f.lines.saidLine b.pathPlace)
    runs.flatMap fun run => (run.zip (run.drop 1)).filterMap fun (a, b) =>
      if importRank a.importPath != importRank b.importPath then some b.importPath else none

end File

def pathOnLine? (line : String) : Option String :=
  let isSpace (c : Char) : Bool := [' ', '\t', '\n', '\r', '\x0c'].contains c
  let isWord (c : Char) : Bool := c.isAlphanum || c == '_' || c == '.'
  let cs := line.toList
  let rest := cs.dropWhile isSpace
  if rest.length = cs.length then none
  else
    let word := rest.takeWhile isWord
    let after := rest.drop word.length
    let path := if word.isEmpty || after.head?.any isSpace then after.dropWhile isSpace else after
    match path with
    | '"' :: p =>
      let q := p.takeWhile (· != '"')
      if q.isEmpty || q.length = p.length || (!word.isEmpty && !after.head?.any isSpace) then none
      else some (String.ofList q)
    | _ => none

def breakImports (text : String) (breaks : List String) : String :=
  if breaks.isEmpty then text
  else
    let step (acc : List String × List String × Bool × Bool) (line : String) :
        List String × List String × Bool × Bool :=
      let (out, breaks, inside, isDone) := acc
      let inside := inside || (!isDone && line.startsWith "import")
      let ends := inside && ["var", "func", "const", "type"].any fun k => line.startsWith k
      let (inside, isDone) := if ends then (false, true) else (inside, isDone)
      match breaks with
      | b :: bs =>
        if inside && pathOnLine? line = some b then (line :: "" :: out, bs, inside, isDone)
        else (line :: out, breaks, inside, isDone)
      | [] => (line :: out, breaks, inside, isDone)
    "\n".intercalate ((text.splitOn "\n").foldl step ([], breaks, false, false)).1.reverse

end TiledAutomata.Emit.Host
