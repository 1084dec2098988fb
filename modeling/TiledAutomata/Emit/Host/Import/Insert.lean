import TiledAutomata.Emit.Host.Import.Basic

/-!
# Imports that are put in

A new import goes behind the one whose path has most in common with its own, and takes its
place in the source. All imports then stand behind one keyword.
-/

namespace TiledAutomata.Emit.Host

namespace File

def sharedDepth (a b : String) : Nat :=
  (((a.toList.zip b.toList).takeWhile fun (x, y) => x = y).filter fun (x, _) => x = '/').length

/-- Where imports are best put: the index of the declarations, and of the import before. -/
structure Spot where
  shared : Option Nat := none
  decl : Option Nat := none
  index : Option Nat := none

def spot (path : String) (ms : List Member) : Spot :=
  let isThirdParty (p : String) : Bool := p.contains '.'
  ms.zipIdx.foldl (fun best (m, i) =>
    match m.imports? with
    | none => best
    | some d =>
      if d.isForeign then best
      else
        let best := if d.specs.isEmpty && best.shared.isNone then { best with decl := some i }
          else best
        (d.specs.zipIdx.foldl (fun (best, seen) (s, j) =>
          let n := sharedDepth s.importPath path
          let isBetter := best.shared.all (· < n) ||
            (best.shared = some 0 && !seen && isThirdParty path)
          (if isBetter then ⟨some n, some i, some j⟩ else best, seen || isThirdParty s.importPath))
          (best, false)).1) {}

/-- The place of new imports in a file without any: that of its package, or behind the comments
down to its line. -/
def firstImportPlace (f : File) : Place :=
  let line := f.lines.saidLine f.place
  match (f.groups.takeWhile fun g => f.lines.saidLine g.place ≤ line).getLast? with
  | some g => g.stop + 2
  | none => f.place

def mergeMembers (ms : List Member) : List Member :=
  let isMerged (m : Member) : Bool := m.imports?.any fun d => !d.isForeign
  match ms.filterMap fun m => if isMerged m then m.imports? else none with
  | first :: others =>
    let moved := (others.flatMap Decl.specs).map (Spec.withPathAt first.place)
    let opening := if others.isEmpty then first.opening else first.place
    let all := (first.withOpening opening).withSpecs (first.specs ++ moved)
    let front := ms.takeWhile fun m => !isMerged m
    front ++ .decl all :: (ms.drop (front.length + 1)).filter fun m => !isMerged m
  | [] => ms

def mergeImports (f : File) : File :=
  if f.members.length ≤ 1 then f else { f with members := mergeMembers f.members }

def insertSpec (f : File) (path : String) (index : Option Nat) (d : Decl) : Decl :=
  let before := index.bind (d.specs[·]?)
  let place := match before with
    | some s =>
      let group := s.importNote.bind fun n => f.groups.find? fun g => g.number = n
      (group.map Group.stop).getD s.place
    | none => d.place
  let at_ := index.elim 0 (· + 1)
  let specs := d.specs.take at_ ++ Spec.ofPath path place :: d.specs.drop at_
  let opening := if specs.length = 1 then 0
    else if d.opening = 0 then (specs.head?.map Spec.place).getD 0
    else d.opening
  (d.withOpening opening).withSpecs specs

def withImport (path : String) (f : File) : File :=
  let decls := f.members.filterMap Member.imports?
  if (decls.flatMap Decl.specs).any fun s => s.importName = "" && s.importPath = path then f
  else
    let best := spot path f.members
    let (members, at_) := match best.decl with
      | some i => (f.members, i)
      | none =>
        let behind := f.members.reverse.takeWhile fun (m : Member) => m.imports?.isNone
        let at_ := f.members.length - behind.length
        let place := ((f.members[at_ - 1]?.bind Member.imports?).map Decl.stop).getD
          f.firstImportPlace
        (f.members.take at_ ++ Member.decl (.mk none place "import" 0 [] 0) :: f.members.drop at_,
          at_)
    { f with members := members.modify at_ fun m =>
        (m.imports?.map fun d => Member.decl (f.insertSpec path best.index d)).getD m }.mergeImports

end File

end TiledAutomata.Emit.Host
