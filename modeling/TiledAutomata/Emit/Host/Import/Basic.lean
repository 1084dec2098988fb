import TiledAutomata.Emit.Host.Library
import TiledAutomata.Emit.Host.Literal
import TiledAutomata.Emit.Host.Reference

/-!
# Imports

A file imports what it refers to and nothing else: imports that nothing refers to are left out,
and packages of the library that are referred to are put in.
-/

namespace TiledAutomata.Emit.Host

namespace Spec

def importName : Spec → String
  | .imported _ n _ _ _ => (n.map (·.text)).getD ""
  | _ => ""

def importPath : Spec → String
  | .imported _ _ p _ _ => p.value?.getD ""
  | _ => ""

def pathPlace : Spec → Place
  | .imported _ _ p _ _ => p.place
  | s => s.place

def importNote : Spec → Option Nat
  | .imported _ _ _ _ n => n
  | _ => none

def importDoc : Spec → Option Nat
  | .imported d _ _ _ _ => d
  | _ => none

def withPathAt (at_ : Place) : Spec → Spec
  | .imported d n p stop note =>
    .imported d n { p with place := at_, stop := at_ + (p.stop - p.place) } stop note
  | s => s

def between (start stop : Place) : Spec → Spec
  | .imported d n p _ note =>
    withPathAt start (.imported d (n.map fun n => { n with place := start }) p stop note)
  | s => s

def ofPath (path : String) (at_ : Place) : Spec :=
  let text := "\"" ++ path ++ "\""
  .imported none none ⟨at_, at_ + text.utf8ByteSize, .text, text⟩ at_ none

end Spec

namespace Decl

def withSpecs (d : Decl) (specs : List Spec) : Decl :=
  .mk d.doc d.place d.keyword d.opening specs d.closing

def withOpening (d : Decl) (opening : Place) : Decl :=
  .mk d.doc d.place d.keyword opening d.specs d.closing

def isForeign (d : Decl) : Bool := d.specs.any fun s => s.importPath = "C"

end Decl

namespace Member

def imports? : Member → Option Decl
  | .decl d => if d.keyword = "import" then some d else none
  | .func _ => none

end Member

structure Import where
  path : String
  name : String
  known : String
  deriving DecidableEq, Repr

namespace Import

def le (a b : Import) : Bool :=
  if a.path != b.path then a.path < b.path
  else if a.name != b.name then a.name < b.name
  else a.known ≤ b.known

def knownAs (path : String) : String :=
  let parts := (path.splitOn "/").reverse.dropWhile (· = "")
  let base := Library.nameOf ("/".intercalate parts.reverse)
  let cs := base.toList
  let cs := if "go-".toList.isPrefixOf cs then cs.drop 3 else cs
  String.ofList (cs.takeWhile Lexeme.continuesWord)

def ofFile (f : File) : List Import :=
  ((f.members.filterMap Member.imports?).flatMap Decl.specs).filterMap fun
    | .imported _ n p _ _ =>
      let name := (n.map (·.text)).getD ""
      if p.text = "\"C\"" || name = "_" || name = "." then none
      else
        let path := String.ofList
          (((p.text.toList.dropWhile (· = '"')).reverse.dropWhile (· = '"')).reverse)
        some ⟨path, name, if name = "" then knownAs path else name⟩
    | _ => none

def needs (rs : List Reference) : List (String × List String) :=
  rs.foldl (fun ns r =>
    match ns.lookup r.package with
    | some ms =>
      if ms.contains r.member then ns
      else ns.map fun n => if n.1 = r.package then (n.1, r.member :: n.2) else n
    | none => (r.package, [r.member]) :: ns) []

def changes (f : File) (rs : List Reference) : List Import × List String :=
  let needed := needs rs
  let present := ofFile f
  let unused := present.filter fun i => (needed.lookup i.known).isNone
  let missing := needed.filter fun n => !present.any fun i => i.known = n.1
  (unused.mergeSort le,
    (missing.filterMap fun (n, ms) => Library.find? n ms).mergeSort fun a b => a ≤ b)

end Import

end TiledAutomata.Emit.Host
