import ActorIdl.Declaration.Resolution
import Mathlib.Data.List.Forall2
/-! # The arena of methods

    Resolution goes along the entries and puts every method that it meets at the end of the arena,
    under the number that it leaves among the members.  The arena only grows, so a number stands for
    the same method until the end, and the numbers that are left count up from the size of the arena
    at the beginning.  Read through the final arena, an entry becomes its declaration with all of
    its methods. -/

namespace ActorIdl

/-! ## The members of an entry -/

/-- A member with its references resolved. -/
def Scope.resolveMember (s : Scope) (enclosing : DeclId) (file : FileId) : EnteredMember → Member
  | .type id => .type id
  | .method m => .method (s.resolveMethod enclosing file m)

/-- The number of a method. -/
def MemberRef.method? : MemberRef → Option MethodRef
  | .type _ => none
  | .method ref => some ref

namespace Scope

variable (s : Scope) (enclosing : DeclId) (file : FileId)

theorem prefix_resolveMembers (methods : Array Method) (ms : List EnteredMember) :
    methods.toList <+: (s.resolveMembers enclosing file methods ms).2.toList := by
  induction ms generalizing methods with
  | nil => exact List.prefix_rfl
  | cons m ms ih =>
    cases m with
    | type id => exact ih methods
    | method m =>
      refine List.IsPrefix.trans ?_ (ih (methods.push _))
      rw [Array.toList_push]
      exact List.prefix_append _ _

/-- The numbers stand for the members in every arena that goes on behind the one that is made. -/
theorem member?_resolveMembers {arena methods : Array Method} {ms : List EnteredMember}
    (h : (s.resolveMembers enclosing file methods ms).2.toList <+: arena.toList) :
    (s.resolveMembers enclosing file methods ms).1.map (·.member? arena) =
      ms.map fun m => some (s.resolveMember enclosing file m) := by
  induction ms generalizing methods with
  | nil => rfl
  | cons m ms ih =>
    cases m with
    | type id => exact congrArg (_ :: ·) (ih h)
    | method m =>
      -- the method stays where it is put
      have hprefix := (s.prefix_resolveMembers enclosing file
        (methods.push (s.resolveMethod enclosing file m)) ms).trans h
      obtain ⟨later, hlater⟩ := hprefix
      have hm : arena[methods.size]? = some (s.resolveMethod enclosing file m) := by
        rw [← Array.getElem?_toList, ← hlater, Array.toList_push, ← Array.length_toList,
          List.append_assoc, List.getElem?_append_right (Nat.le_refl _), Nat.sub_self]
        rfl
      have hmember : MemberRef.member? arena (.method methods.size) =
          some (.method (s.resolveMethod enclosing file m)) := congrArg (Option.map _) hm
      exact congrArg₂ List.cons hmember (ih h)

/-- The numbers of the methods count on from those that the arena has. -/
theorem range_resolveMembers (methods : Array Method) (ms : List EnteredMember) :
    List.range methods.size ++
        (s.resolveMembers enclosing file methods ms).1.filterMap (·.method?) =
      List.range (s.resolveMembers enclosing file methods ms).2.size := by
  induction ms generalizing methods with
  | nil => exact List.append_nil _
  | cons m ms ih =>
    cases m with
    | type id => exact ih methods
    | method m =>
      have ih := ih (methods.push (s.resolveMethod enclosing file m))
      rw [Array.size_push, List.range_succ, List.append_assoc] at ih
      exact ih

end Scope

/-! ## All entries -/

namespace Entry

variable (byName : NameIndex)

/-- The declaration of an entry with its references resolved. -/
def declared (e : Entry) : Declaration :=
  { e.info byName with members := e.members.map ((e.bodyScope byName).resolveMember e.id e.file) }

/-- A stored declaration stands for the one of an entry if its numbers stand for the members. -/
structure StandsFor (arena : Array Method) (d : StoredDeclaration) (e : Entry) : Prop where
  info : d.toDeclInfo = e.info byName
  members : d.members.map (·.member? arena) =
    e.members.map fun m => some ((e.bodyScope byName).resolveMember e.id e.file m)

variable {byName} in
theorem StandsFor.view_eq {arena : Array Method} {d : StoredDeclaration} {e : Entry}
    (h : StandsFor byName arena d e) : d.view arena = e.declared byName := by
  have hmembers : d.members.filterMap (·.member? arena) =
      e.members.map ((e.bodyScope byName).resolveMember e.id e.file) := by
    have hsome := congrArg (List.filterMap fun m => m) h.members
    rw [List.filterMap_map, List.filterMap_map] at hsome
    exact hsome.trans (congrFun List.filterMap_eq_map _)
  rw [StoredDeclaration.view, declared, h.info, hmembers]

theorem prefix_resolveAll (methods : Array Method) (es : List Entry) :
    methods.toList <+: (resolveAll byName methods es).2.toList := by
  induction es generalizing methods with
  | nil => exact List.prefix_rfl
  | cons e es ih => exact (Scope.prefix_resolveMembers _ _ _ methods e.members).trans (ih _)

/-- In the final arena every stored declaration stands for that of its entry. -/
theorem standsFor_resolveAll {arena methods : Array Method} {es : List Entry}
    (h : (resolveAll byName methods es).2.toList <+: arena.toList) :
    List.Forall₂ (StandsFor byName arena) (resolveAll byName methods es).1 es := by
  induction es generalizing methods with
  | nil => exact .nil
  | cons e es ih =>
    have hprefix := (prefix_resolveAll byName (e.resolve byName methods).2 es).trans h
    exact .cons ⟨rfl, Scope.member?_resolveMembers _ _ _ hprefix⟩ (ih h)

/-- The numbers of the methods of all declarations count on from those that the arena has. -/
theorem range_resolveAll (methods : Array Method) (es : List Entry) :
    List.range methods.size ++
        ((resolveAll byName methods es).1.flatMap (·.members)).filterMap (·.method?) =
      List.range (resolveAll byName methods es).2.size := by
  induction es generalizing methods with
  | nil => exact List.append_nil _
  | cons e es ih =>
    have hfirst := Scope.range_resolveMembers (e.bodyScope byName) e.id e.file methods e.members
    have hrest := ih (e.resolve byName methods).2
    show _ ++ ((_ :: (resolveAll byName (e.resolve byName methods).2 es).1).flatMap _).filterMap _ =
      _
    rw [List.flatMap_cons, List.filterMap_append, ← List.append_assoc]
    exact (congrArg (· ++ _) hfirst).trans hrest

end Entry

end ActorIdl
