import JsonRpcServer.Framework.Bytes

/-! # The Object Tree

  Both servers name an object by the path of a request: they walk down the
  tree of `QObject` children along its non-empty components.
-/

open Bytes

/-- The tree of named objects below the root object. -/
structure ObjectTree (Obj : Type) where
  root_object : Obj
  /-- `findChild(name, Qt::FindDirectChildrenOnly)`. -/
  findChild : Obj → Bytes → Option Obj

/-- `uri.split('/', Qt::SkipEmptyParts)`. -/
def targetPath (uri : Bytes) : List Bytes := (uri.splitOn 47).filter (· ≠ [])

/-- Walk down the tree along a path. -/
def ObjectTree.resolve {Obj : Type} (objs : ObjectTree Obj) (path : List Bytes) : Option Obj :=
  path.foldlM objs.findChild objs.root_object

/-- A root object without children. -/
def soloRoot : ObjectTree Unit := ⟨(), fun _ _ => none⟩
