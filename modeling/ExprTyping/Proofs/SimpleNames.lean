import Mathlib.Data.List.DropRight
import ExprTyping.Proofs.WellFormed
import ExprTyping.Ty.Render

/-!
# Simple names

The simple form of a type is the qualified form of another type, the one in which every class goes
by the last segment of its name. A last segment has no dot and so is its own last segment, whatever
the name looks like: the segment may be empty, and dots may stand side by side.
-/

namespace ExprTyping

namespace ClassName

theorem toList_simple (name : ClassName) :
    (simple name).toList = name.toList.rtakeWhile (· ≠ '.') :=
  String.toList_ofList

theorem dot_notMem_simple (name : ClassName) : '.' ∉ (simple name).toList := by
  rw [toList_simple]
  intro h
  simpa using List.mem_rtakeWhile_imp h

theorem simple_of_dot_notMem {segment : String} (h : '.' ∉ segment.toList) :
    simple segment = segment := by
  rw [← String.toList_inj, toList_simple, List.rtakeWhile_eq_self_iff]
  intro c hc
  simpa using ne_of_mem_of_not_mem hc h

theorem simple_qualified (qualifier : String) {segment : String} (h : '.' ∉ segment.toList) :
    simple (qualifier ++ "." ++ segment) = segment := by
  have hplain : ∀ c ∈ segment.toList.reverse, decide (c ≠ '.') = true := by
    intro c hc
    simpa using ne_of_mem_of_not_mem (List.mem_reverse.1 hc) h
  rw [← String.toList_inj, toList_simple, List.rtakeWhile, String.toList_append,
    List.reverse_append, List.takeWhile_append_of_pos hplain]
  simp

/-- What stands before the last segment is nothing, or ends in a dot: the segment is cut from the
end, and a dot has stopped the cutting. -/
theorem simple_eq_or_qualified (name : ClassName) :
    simple name = name ∨ ∃ qualifier, name = qualifier ++ "." ++ simple name := by
  obtain ⟨front, hsplit, hfront⟩ : ∃ front, name.toList = front ++ (simple name).toList ∧
      ∀ hnil : front ≠ [], front.getLast hnil = '.' := by
    refine ⟨name.toList.rdropWhile (· ≠ '.'), ?_, fun hnil ↦ ?_⟩
    · rw [toList_simple, List.rdropWhile_append_rtakeWhile]
    · simpa using List.rdropWhile_last_not _ _ hnil
  rcases front.eq_nil_or_concat with rfl | ⟨qualifier, last, rfl⟩
  · left
    rw [List.nil_append, String.toList_inj] at hsplit
    exact hsplit.symm
  · right
    obtain rfl : last = '.' := by simpa using hfront (by simp)
    refine ⟨String.ofList qualifier, ?_⟩
    rw [← String.toList_inj, hsplit]
    simp

theorem simple_eq_iff {name segment : String} :
    simple name = segment ↔ '.' ∉ segment.toList ∧
      (segment = name ∨ ∃ qualifier, name = qualifier ++ "." ++ segment) := by
  constructor
  · rintro rfl
    exact ⟨dot_notMem_simple name, simple_eq_or_qualified name⟩
  · rintro ⟨hdot, rfl | ⟨qualifier, rfl⟩⟩
    · exact simple_of_dot_notMem hdot
    · exact simple_qualified qualifier hdot

example : ["", "List", "java.util.List", ".a", "a..b", "a."].map simple =
    ["", "List", "List", "a", "b", ""] := by decide

theorem simple_simple (name : ClassName) : simple (simple name) = simple name :=
  simple_of_dot_notMem (dot_notMem_simple name)

end ClassName

namespace Ty

mutual

def mapNames (f : ClassName → ClassName) : Ty → Ty
  | known name args => known (f name) (mapNamesEach f args)
  | primitive kind => primitive kind
  | dynamic hint => dynamic hint
  | unknown reason => unknown reason
  | union members => union (mapNamesEach f members)
  | null => null
  | array component => array (mapNames f component)

def mapNamesEach (f : ClassName → ClassName) : List Ty → List Ty
  | [] => []
  | ty :: types => mapNames f ty :: mapNamesEach f types

end

/-- The type with classes named by the last segments of their names. Members of a union may come to
be equal by that, and stay. -/
def withSimpleNames (ty : Ty) : Ty := ty.mapNames ClassName.simple

theorem mapNamesEach_eq_map (f : ClassName → ClassName) (types : List Ty) :
    mapNamesEach f types = types.map (mapNames f) := by
  induction types with
  | nil => rfl
  | cons ty types ih => rw [mapNamesEach, ih, List.map_cons]

theorem mapNames_mapNames (f g : ClassName → ClassName) (ty : Ty) :
    (ty.mapNames f).mapNames g = ty.mapNames (g ∘ f) := by
  induction ty with
  | known name args ih | union args ih =>
    simp only [mapNames, mapNamesEach_eq_map, List.map_map, Function.comp_apply]
    congr 1
    exact List.map_congr_left ih
  | array component ih => rw [mapNames, mapNames, mapNames, ih]
  | primitive | dynamic | unknown | null => rfl

section Text

variable (label : ClassName → String) (f : ClassName → ClassName)

theorem renderRest_mapNames (separator : String) {types : List Ty}
    (h : ∀ ty ∈ types, (ty.mapNames f).renderWith label = ty.renderWith (label ∘ f)) :
    renderRest label separator (mapNamesEach f types) =
      renderRest (label ∘ f) separator types := by
  induction types with
  | nil => simp only [mapNamesEach, renderRest]
  | cons ty types ih =>
    rw [List.forall_mem_cons] at h
    rw [mapNamesEach, renderRest, renderRest, h.1, ih h.2]

/-- Names can be replaced in the type or when they are written. -/
theorem renderWith_mapNames (ty : Ty) :
    (ty.mapNames f).renderWith label = ty.renderWith (label ∘ f) := by
  induction ty with
  | known name args ih =>
    cases args with
    | nil => simp only [mapNames, mapNamesEach, renderWith, Function.comp_apply]
    | cons arg args =>
      rw [List.forall_mem_cons] at ih
      simp only [mapNames, mapNamesEach, renderWith, ih.1, renderRest_mapNames label f ", " ih.2,
        Function.comp_apply]
  | union members ih =>
    cases members with
    | nil => simp only [mapNames, mapNamesEach, renderWith]
    | cons member members =>
      rw [List.forall_mem_cons] at ih
      simp only [mapNames, mapNamesEach, renderWith, ih.1, renderRest_mapNames label f " | " ih.2]
  | array component ih => rw [mapNames, renderWith, renderWith, ih]
  | primitive | dynamic | unknown | null => simp only [mapNames, renderWith]

end Text

theorem withSimpleNames_withSimpleNames (ty : Ty) :
    ty.withSimpleNames.withSimpleNames = ty.withSimpleNames := by
  have hsimple : ClassName.simple ∘ ClassName.simple = ClassName.simple :=
    funext ClassName.simple_simple
  rw [withSimpleNames, withSimpleNames, mapNames_mapNames, hsimple]

/-- The simple form of a type is the qualified form of the type with simple names. A simple name is
what has no dot and is the whole name or follows a dot at its end; so a type with simple names keeps
them when its names are made simple again. -/
theorem renderSimple_eq_render_withSimpleNames :
    (∀ ty : Ty, ty.renderSimple = ty.withSimpleNames.render ∧
      ty.withSimpleNames.withSimpleNames = ty.withSimpleNames) ∧
      ∀ name segment : String, ClassName.simple name = segment ↔ '.' ∉ segment.toList ∧
        (segment = name ∨ ∃ qualifier, name = qualifier ++ "." ++ segment) := by
  refine ⟨fun ty ↦ ⟨?_, withSimpleNames_withSimpleNames ty⟩, fun _ _ ↦ ClassName.simple_eq_iff⟩
  calc ty.renderSimple
    _ = ty.renderWith (id ∘ ClassName.simple) := rfl
    _ = ty.withSimpleNames.render := (renderWith_mapNames id ClassName.simple ty).symm

end Ty

end ExprTyping
