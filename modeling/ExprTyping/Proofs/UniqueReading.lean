import ExprTyping.Proofs.UnionBuilding
import ExprTyping.Ty.Render

/-!
# Reading a type off its text

The text of a type tells it from all others, up to equality, as long as class names look like names.
What is read is a sequence of members between bars, a member is a stem with pairs of brackets, and a
stem is a word that may have arguments. On each of these levels the character after the text says
whether it goes on, so the proof compares two texts together with what follows them.
-/

namespace ExprTyping.Ty

/-! ## Names that can be told apart -/

/-- The characters that the printer writes around names. -/
def marks : List Char := ['<', '>', '[', ']', ',', '|', ' ']

def reservedWords : List String := "def" :: "null" :: Primitive.all.map Primitive.keyword

/-- A word that is not reserved, of any characters but marks: of letters and digits of any script,
`_`, `$` and `.`, for instance. -/
def IsPlainName (name : ClassName) : Prop :=
  name ≠ "" ∧ (∀ c ∈ name.toList, c ∉ marks) ∧ name ∉ reservedWords

instance (name : ClassName) : Decidable (IsPlainName name) :=
  have := List.decidableBAll (· ∉ marks) name.toList
  inferInstanceAs (Decidable (_ ∧ _ ∧ _))

example : marks.all fun c ↦ !(c.isAlphanum || c == '_' || c == '$' || c == '.') := by decide

/-- All names in the type are plain, and no array has a union as its component. -/
inductive Legible : Ty → Prop
  | known {name : ClassName} {args : List Ty} (hname : IsPlainName name)
      (hargs : ∀ arg ∈ args, Legible arg) : Legible (known name args)
  | primitive (kind : Primitive) : Legible (primitive kind)
  | dynamic (hint : Option String) : Legible (dynamic hint)
  | unknown (reason : String) : Legible (unknown reason)
  | union {members : List Ty} (hmembers : ∀ member ∈ members, Legible member) :
      Legible (union members)
  | null : Legible null
  | array {component : Ty} (hflat : component.members? = none) (hcomponent : Legible component) :
      Legible (array component)

attribute [simp] Legible.primitive Legible.dynamic Legible.unknown Legible.null

@[simp] theorem legible_known_iff {name : ClassName} {args : List Ty} :
    Legible (known name args) ↔ IsPlainName name ∧ ∀ arg ∈ args, Legible arg := by
  constructor
  · intro h
    cases h with
    | known hname hargs => exact ⟨hname, hargs⟩
  · rintro ⟨hname, hargs⟩
    exact .known hname hargs

@[simp] theorem legible_array_iff {component : Ty} :
    Legible (array component) ↔ component.members? = none ∧ Legible component := by
  constructor
  · intro h
    cases h with
    | array hflat hcomponent => exact ⟨hflat, hcomponent⟩
  · rintro ⟨hflat, hcomponent⟩
    exact .array hflat hcomponent

@[simp] theorem legible_union_iff {members : List Ty} :
    Legible (union members) ↔ ∀ member ∈ members, Legible member := by
  constructor
  · intro h
    cases h with
    | union hmembers => exact hmembers
  · exact .union

theorem Legible.of_mem_parts {ty part : Ty} (h : ty.Legible) (hpart : part ∈ ty.parts) :
    part.Legible := by
  cases ty with
  | union members => exact legible_union_iff.1 h part hpart
  | _ =>
    obtain rfl := List.mem_singleton.1 hpart
    exact h

/-! ## Texts as characters -/

def chars (ty : Ty) : List Char := ty.render.toList

def charsEach (separator : List Char) (types : List Ty) : List Char :=
  types.flatMap fun ty ↦ separator ++ ty.chars

@[simp] theorem charsEach_nil (separator : List Char) : charsEach separator [] = [] := rfl

@[simp] theorem charsEach_cons (separator : List Char) (ty : Ty) (types : List Ty) :
    charsEach separator (ty :: types) = separator ++ ty.chars ++ charsEach separator types := rfl

theorem toList_renderRest (separator : String) (types : List Ty) :
    (renderRest id separator types).toList = charsEach separator.toList types := by
  induction types with
  | nil => rfl
  | cons ty types ih =>
    rw [renderRest, String.toList_append, String.toList_append, ih]
    rfl

theorem chars_known_cons (name : ClassName) (arg : Ty) (args : List Ty) :
    (known name (arg :: args)).chars =
      name.toList ++ '<' :: (arg.chars ++ charsEach [',', ' '] args ++ ['>']) := by
  rw [chars, render, renderWith]
  simp [toList_renderRest, chars, render]

theorem chars_array (component : Ty) : (array component).chars = component.chars ++ ['[', ']'] := by
  rw [chars, render, renderWith]
  simp [chars, render]

theorem charsEach_parts {ty : Ty} (h : ty.WellFormed) :
    [' ', '|', ' '] ++ ty.chars = charsEach [' ', '|', ' '] ty.parts := by
  cases ty with
  | union members =>
    match members, parts_ne_nil h with
    | member :: members, _ =>
      rw [chars, render, renderWith]
      simp [toList_renderRest, chars, render, parts]
  | _ => simp [parts]

/-! ## What follows a text -/

/-- The text is at its end, or goes on with one of the characters. -/
def GoesOn (stops : List Char) (text : List Char) : Prop := ∀ c ∈ text.head?, c ∈ stops

theorem goesOn_nil (stops : List Char) : GoesOn stops [] := by
  simp [GoesOn]

theorem goesOn_cons_iff {stops : List Char} {c : Char} {text : List Char} :
    GoesOn stops (c :: text) ↔ c ∈ stops := by
  simp [GoesOn]

theorem GoesOn.mono {stops stops' : List Char} {text : List Char} (h : GoesOn stops text)
    (hsub : stops ⊆ stops') : GoesOn stops' text :=
  fun c hc ↦ hsub (h c hc)

/-- Two texts without marks are the same if they are followed by marks and this gives the same. -/
theorem append_inj_of_plain {u v s t : List Char} (hu : ∀ c ∈ u, c ∉ marks)
    (hv : ∀ c ∈ v, c ∉ marks) (hs : GoesOn marks s) (ht : GoesOn marks t)
    (h : u ++ s = v ++ t) : u = v ∧ s = t := by
  induction u generalizing v with
  | nil =>
    cases v with
    | nil => exact ⟨rfl, h⟩
    | cons c v =>
      obtain rfl : s = c :: (v ++ t) := h
      exact absurd (goesOn_cons_iff.1 hs) (hv c (by simp))
  | cons c u ih =>
    cases v with
    | nil =>
      obtain rfl : c :: (u ++ s) = t := h
      exact absurd (goesOn_cons_iff.1 ht) (hu c (by simp))
    | cons d v =>
      rw [List.forall_mem_cons] at hu hv
      obtain ⟨rfl, htail⟩ := List.cons.inj h
      obtain ⟨rfl, rfl⟩ := ih hu.2 hv.2 htail
      exact ⟨rfl, rfl⟩

/-- Followed by one of the stops, the text of `ty` is told from the texts of the other types with
the property, and it is seen where it ends. -/
def Told (stops : List Char) (P : Ty → Prop) (ty : Ty) : Prop :=
  ∀ other s t, P other → GoesOn stops s → GoesOn stops t → ty.chars ++ s = other.chars ++ t →
    ty == other ∧ s = t

/-- A sequence is told if its elements are, and if the mark that separates them cannot follow it. -/
theorem charsEach_inj {mark : Char} {separator stops : List Char} (hmark : mark ∉ stops)
    {P : Ty → Prop} {as bs : List Ty} (has : ∀ a ∈ as, Told (mark :: stops) P a)
    (hbs : ∀ b ∈ bs, P b) {s t : List Char} (hs : GoesOn stops s) (ht : GoesOn stops t)
    (h : charsEach (mark :: separator) as ++ s = charsEach (mark :: separator) bs ++ t) :
    List.Forall₂ (fun a b ↦ a == b) as bs ∧ s = t := by
  have hgoesOn {text : List Char} (types : List Ty) (htext : GoesOn stops text) :
      GoesOn (mark :: stops) (charsEach (mark :: separator) types ++ text) := by
    cases types with
    | nil => exact htext.mono (List.subset_cons_self mark stops)
    | cons ty types => exact goesOn_cons_iff.2 List.mem_cons_self
  induction as generalizing bs with
  | nil =>
    cases bs with
    | nil => exact ⟨.nil, h⟩
    | cons b bs =>
      rw [charsEach_nil, List.nil_append] at h
      rw [h] at hs
      exact absurd (goesOn_cons_iff.1 hs) hmark
  | cons a as ih =>
    cases bs with
    | nil =>
      rw [charsEach_nil, List.nil_append] at h
      rw [← h] at ht
      exact absurd (goesOn_cons_iff.1 ht) hmark
    | cons b bs =>
      rw [List.forall_mem_cons] at has hbs
      simp only [charsEach_cons, List.append_assoc] at h
      obtain ⟨hab, hrest⟩ :=
        has.1 b _ _ hbs.1 (hgoesOn as hs) (hgoesOn bs ht) (List.append_cancel_left h)
      obtain ⟨hall, rfl⟩ := ih has.2 hbs.2 hrest
      exact ⟨.cons hab hall, rfl⟩

/-! ## Stems -/

structure IsStem (ty : Ty) : Prop where
  wellFormed : ty.WellFormed
  legible : ty.Legible
  members?_eq_none : ty.members? = none
  ne_array : ∀ component, ty ≠ array component

def word : Ty → String
  | known name _ => name
  | primitive kind => kind.keyword
  | dynamic _ => "def"
  | null => "null"
  | unknown _ | union _ | array _ => ""

def afterWord : Ty → List Char
  | known _ (arg :: args) => '<' :: (arg.chars ++ charsEach [',', ' '] args ++ ['>'])
  | unknown _ => ['<', 'u', 'n', 'k', 'n', 'o', 'w', 'n', '>']
  | known _ [] | primitive _ | dynamic _ | union _ | null | array _ => []

namespace IsStem

variable {a b : Ty}

theorem chars_eq (ha : a.IsStem) : a.chars = a.word.toList ++ a.afterWord := by
  cases a with
  | known name args =>
    cases args with
    | nil =>
      rw [chars, render, renderWith, afterWord, List.append_nil]
      rfl
    | cons arg args => exact chars_known_cons name arg args
  | union members => cases ha.members?_eq_none
  | array component => exact (ha.ne_array component rfl).elim
  | primitive | dynamic | unknown | null => simp [chars, render, renderWith, word, afterWord]

theorem plain_word (ha : a.IsStem) : ∀ c ∈ a.word.toList, c ∉ marks := by
  cases a with
  | known name args => exact (legible_known_iff.1 ha.legible).1.2.1
  | primitive kind => cases kind <;> simp [word, Primitive.keyword, marks]
  | dynamic | unknown | union | null | array => simp [word, marks]

theorem goesOn_afterWord (a : Ty) {s : List Char} (hs : GoesOn marks s) :
    GoesOn marks (a.afterWord ++ s) := by
  unfold afterWord
  split
  · exact goesOn_cons_iff.2 (by decide)
  · exact goesOn_cons_iff.2 (by decide)
  all_goals exact hs

/-- Words other than names are reserved or empty. -/
theorem eq_known_of_plain_word (hb : b.IsStem) (hword : IsPlainName b.word) :
    b = known b.word b.args := by
  cases b with
  | known name args => rfl
  | primitive kind =>
    refine absurd ?_ hword.2.2
    exact List.mem_cons_of_mem _ (List.mem_cons_of_mem _ (List.mem_map_of_mem kind.mem_all))
  | dynamic | null => exact absurd (by simp [word, reservedWords]) hword.2.2
  | unknown | union | array => exact absurd rfl hword.1

theorem of_mem_args (ha : a.IsStem) {arg : Ty} (harg : arg ∈ a.args) :
    arg.WellFormed ∧ arg.Legible := by
  cases a with
  | known name args =>
    have hwf := wellFormed_known_iff.1 ha.wellFormed
    exact ⟨hwf arg harg, (legible_known_iff.1 ha.legible).2 arg harg⟩
  | _ => cases harg

theorem keyword_ne (kind : Primitive) {text : String} (h : text ∈ ["def", "null", ""]) :
    kind.keyword ≠ text := by
  rintro rfl
  revert h
  cases kind <;> decide

/-- A plain word leaves the arguments open; any other word is the whole stem. -/
theorem same_form_of_word_eq (ha : a.IsStem) (hb : b.IsStem) (hword : a.word = b.word) :
    (∃ name as bs, a = known name as ∧ b = known name bs) ∨
      a == b ∧ a.afterWord = b.afterWord := by
  by_cases hplain : IsPlainName a.word
  · refine .inl ⟨a.word, a.args, b.args, ha.eq_known_of_plain_word hplain, ?_⟩
    rw [hword] at hplain ⊢
    exact hb.eq_known_of_plain_word hplain
  · have hplain' : ¬IsPlainName b.word := hword ▸ hplain
    refine .inr ?_
    cases a with
    | known name args => exact absurd (legible_known_iff.1 ha.legible).1 hplain
    | union members => cases ha.members?_eq_none
    | array component => exact (ha.ne_array component rfl).elim
    | primitive kind =>
      cases b with
      | primitive kind' =>
        have hkind : some kind = some kind' := by
          simpa [word] using congrArg Primitive.ofKeyword? hword
        rw [Option.some.inj hkind]
        exact ⟨beq_refl _, rfl⟩
      | known name args => exact absurd (legible_known_iff.1 hb.legible).1 hplain'
      | dynamic | unknown | union | null | array =>
        exact absurd hword (keyword_ne kind (by simp [word]))
    | dynamic | unknown | null =>
      cases b with
      | primitive kind => exact absurd hword.symm (keyword_ne kind (by simp [word]))
      | known name args => exact absurd (legible_known_iff.1 hb.legible).1 hplain'
      | union members => cases hb.members?_eq_none
      | array component => exact (hb.ne_array component rfl).elim
      | dynamic | unknown | null => simp_all [word, afterWord]

end IsStem

/-- A stem is told if its arguments are: after the name, an angle bracket opens them or there are
none. -/
theorem told_stem {a : Ty} (ha : a.IsStem)
    (hargs : ∀ arg ∈ a.args, Told [',', '>'] (fun b ↦ b.WellFormed ∧ b.Legible) arg) :
    Told ['[', ' ', ',', '>'] IsStem a := by
  intro b s t hb hs ht h
  have hstops : ['[', ' ', ',', '>'] ⊆ marks := by decide
  rw [ha.chars_eq, hb.chars_eq, List.append_assoc, List.append_assoc] at h
  obtain ⟨hword, hafter⟩ := append_inj_of_plain ha.plain_word hb.plain_word
    (IsStem.goesOn_afterWord a (hs.mono hstops)) (IsStem.goesOn_afterWord b (ht.mono hstops)) h
  rcases ha.same_form_of_word_eq hb (String.toList_inj.1 hword) with
    ⟨name, as, bs, rfl, rfl⟩ | ⟨hab, hsame⟩
  · have hbs : ∀ arg ∈ bs, arg.WellFormed ∧ arg.Legible := fun arg harg ↦ hb.of_mem_args harg
    cases as with
    | nil =>
      cases bs with
      | nil => exact ⟨beq_refl _, hafter⟩
      | cons b bs =>
        obtain rfl : s = _ := hafter
        exact absurd (goesOn_cons_iff.1 hs) (by decide)
    | cons a as =>
      cases bs with
      | nil =>
        obtain rfl : _ = t := hafter
        exact absurd (goesOn_cons_iff.1 ht) (by decide)
      | cons b bs =>
        have hseq : charsEach [',', ' '] (a :: as) ++ '>' :: s =
            charsEach [',', ' '] (b :: bs) ++ '>' :: t := by
          simpa [afterWord] using hafter
        obtain ⟨hall, hrest⟩ := charsEach_inj (by decide) hargs hbs
          (goesOn_cons_iff.2 (by decide)) (goesOn_cons_iff.2 (by decide)) hseq
        exact ⟨known_beq_iff.2 ⟨_, rfl, hall⟩, (List.cons.inj hrest).2⟩
  · rw [hsame] at hafter
    exact ⟨hab, List.append_cancel_left hafter⟩

/-! ## Members -/

structure IsMember (ty : Ty) : Prop where
  wellFormed : ty.WellFormed
  legible : ty.Legible
  members?_eq_none : ty.members? = none

def stem : Ty → Ty
  | array component => component.stem
  | ty => ty

def depth : Ty → Nat
  | array component => component.depth + 1
  | _ => 0

def brackets (n : Nat) : List Char := (List.replicate n ['[', ']']).flatten

theorem brackets_succ (n : Nat) : brackets (n + 1) = '[' :: ']' :: brackets n := by
  simp [brackets, List.replicate_succ]

theorem chars_eq_stem_append (ty : Ty) : ty.chars = ty.stem.chars ++ brackets ty.depth := by
  induction ty with
  | array component ih =>
    rw [chars_array, ih, stem, depth, brackets, brackets, List.replicate_succ', List.flatten_append,
      List.append_assoc]
    rfl
  | known | primitive | dynamic | unknown | union | null => simp [stem, depth, brackets]

theorem IsMember.isStem_stem {ty : Ty} (h : ty.IsMember) : ty.stem.IsStem := by
  induction ty with
  | array component ih =>
    obtain ⟨hflat, hlegible⟩ := legible_array_iff.1 h.legible
    exact ih ⟨wellFormed_array_iff.1 h.wellFormed, hlegible, hflat⟩
  | union members => cases h.members?_eq_none
  | known | primitive | dynamic | unknown | null =>
    exact ⟨h.wellFormed, h.legible, rfl, fun _ ↦ by simp [stem]⟩

theorem beq_of_stem_beq {a b : Ty} (hstem : a.stem == b.stem) (hdepth : a.depth = b.depth) :
    a == b := by
  induction a generalizing b with
  | array component ih =>
    cases b with
    | array component' =>
      exact array_beq_iff.2 ⟨component', rfl, ih hstem (Nat.succ.inj hdepth)⟩
    | _ => cases hdepth
  | known | primitive | dynamic | unknown | union | null =>
    cases b with
    | array component' => cases hdepth
    | _ => exact hstem

/-- Brackets can be counted if what follows them is not a bracket. -/
theorem brackets_inj {stops : List Char} (hstops : '[' ∉ stops) {m n : Nat} {s t : List Char}
    (hs : GoesOn stops s) (ht : GoesOn stops t) (h : brackets m ++ s = brackets n ++ t) :
    m = n ∧ s = t := by
  induction m generalizing n with
  | zero =>
    cases n with
    | zero => exact ⟨rfl, h⟩
    | succ n =>
      rw [brackets_succ] at h
      obtain rfl : s = _ := h
      exact absurd (goesOn_cons_iff.1 hs) hstops
  | succ m ih =>
    cases n with
    | zero =>
      rw [brackets_succ] at h
      obtain rfl : _ = t := h
      exact absurd (goesOn_cons_iff.1 ht) hstops
    | succ n =>
      rw [brackets_succ, brackets_succ] at h
      obtain ⟨rfl, rfl⟩ := ih (List.cons.inj (List.cons.inj h).2).2
      exact ⟨rfl, rfl⟩

/-- A member is told if its stem is: the brackets behind the stem can be counted. -/
theorem told_member {a : Ty} (hstem : Told ['[', ' ', ',', '>'] IsStem a.stem) :
    Told [' ', ',', '>'] IsMember a := by
  intro b s t hb hs ht h
  have hgoesOn {text : List Char} (n : Nat) (htext : GoesOn [' ', ',', '>'] text) :
      GoesOn ['[', ' ', ',', '>'] (brackets n ++ text) := by
    cases n with
    | zero => exact htext.mono (List.subset_cons_self _ _)
    | succ n =>
      rw [brackets_succ]
      exact goesOn_cons_iff.2 List.mem_cons_self
  rw [chars_eq_stem_append a, chars_eq_stem_append b, List.append_assoc, List.append_assoc] at h
  obtain ⟨hbeq, hrest⟩ :=
    hstem b.stem _ _ hb.isStem_stem (hgoesOn a.depth hs) (hgoesOn b.depth ht) h
  obtain ⟨hdepth, hrest⟩ := brackets_inj (by decide) hs ht hrest
  exact ⟨beq_of_stem_beq hbeq hdepth, hrest⟩

/-! ## Whole types -/

theorem beq_of_forall₂_parts {a b : Ty} (ha : a.WellFormed) (hb : b.WellFormed)
    (h : List.Forall₂ (fun x y ↦ x == y) a.parts b.parts) : a == b := by
  have hunion (ty : Ty) (htwo : 2 ≤ ty.parts.length) : ty = union ty.parts := by
    cases ty with
    | union members => rfl
    | _ => simp [parts] at htwo
  have hsingle {ty : Ty} (hty : ty.WellFormed) (hone : ty.parts.length < 2) : ty.parts = [ty] := by
    cases ty with
    | union members => exact absurd (wellFormed_union_iff.1 hty).1 (Nat.not_le.2 hone)
    | _ => rfl
  have hlength := h.length_eq
  rcases Nat.lt_or_ge a.parts.length 2 with hone | htwo
  · rw [hsingle ha hone, hsingle hb (hlength ▸ hone)] at h
    simpa using h
  · rw [hunion a htwo, hunion b (hlength ▸ htwo)]
    exact union_beq_iff.2 ⟨_, rfl, hlength, (exists_mem_of_forall₂ h).1⟩

/-- A type is told if its members are: a blank after one of them announces the next. -/
theorem told_whole {a : Ty} (ha : a.WellFormed)
    (hparts : ∀ part ∈ a.parts, Told [' ', ',', '>'] IsMember part) :
    Told [',', '>'] (fun b ↦ b.WellFormed ∧ b.Legible) a := by
  rintro b s t ⟨hb, hlegible⟩ hs ht h
  have hmembers : ∀ part ∈ b.parts, part.IsMember := by
    intro part hpart
    obtain ⟨hwf, hflat⟩ := wellFormed_of_mem_parts hb hpart
    exact ⟨hwf, hlegible.of_mem_parts hpart, hflat⟩
  have hseq : charsEach [' ', '|', ' '] a.parts ++ s = charsEach [' ', '|', ' '] b.parts ++ t := by
    rw [← charsEach_parts ha, ← charsEach_parts hb, List.append_assoc, h, List.append_assoc]
  obtain ⟨hall, hrest⟩ := charsEach_inj (by decide) hparts hmembers hs ht hseq
  exact ⟨beq_of_forall₂_parts ha hb hall, hrest⟩

theorem size_stem_le (ty : Ty) : ty.stem.size ≤ ty.size := by
  induction ty with
  | array component ih =>
    simp only [stem, size]
    omega
  | known | primitive | dynamic | unknown | union | null => exact Nat.le_refl _

theorem size_lt_of_mem_args {ty arg : Ty} (h : arg ∈ ty.args) : arg.size < ty.size := by
  cases ty with
  | known name types =>
    have hle : arg.size ≤ totalSize types := size_le_totalSize h
    rw [size]
    omega
  | _ => cases h

/-- Every legible type is told. The induction is on the size, as it goes from a type to the
arguments in the stems of its members. -/
theorem told_of_legible {a : Ty} (ha : a.WellFormed) (hlegible : a.Legible) :
    Told [',', '>'] (fun b ↦ b.WellFormed ∧ b.Legible) a := by
  induction hsize : a.size using Nat.strongRecOn generalizing a with
  | ind size ih =>
    refine told_whole ha fun part hpart ↦ ?_
    obtain ⟨hwf, hflat⟩ := wellFormed_of_mem_parts ha hpart
    have hstem := IsMember.isStem_stem ⟨hwf, hlegible.of_mem_parts hpart, hflat⟩
    refine told_member (told_stem hstem fun arg harg ↦ ?_)
    have hlt : arg.size < a.size :=
      calc arg.size
        _ < part.stem.size := size_lt_of_mem_args harg
        _ ≤ part.size := size_stem_le part
        _ ≤ totalSize a.parts := size_le_totalSize hpart
        _ ≤ a.size := totalSize_parts_le a
    obtain ⟨harg_wf, harg_legible⟩ := hstem.of_mem_args harg
    exact ih arg.size (hsize ▸ hlt) harg_wf harg_legible rfl

/-- The qualified text of a type identifies it. -/
theorem beq_of_render_eq {a b : Ty} (ha : a.WellFormed) (hb : b.WellFormed)
    (hlegible : a.Legible) (hlegible' : b.Legible) (h : a.render = b.render) : a == b := by
  have hchars : a.chars ++ [] = b.chars ++ [] := by rw [chars, chars, h]
  have htold := told_of_legible ha hlegible
  exact (htold b [] [] ⟨hb, hlegible'⟩ (goesOn_nil _) (goesOn_nil _) hchars).1

/-- A union inside an array cannot be told from a union with an array at its end. -/
example : (array (union [int, string])).render = (union [int, array string]).render := by decide

theorem beq_of_text_with_hints :
    let a := union [known "util.Map" [known "X$1" [unknown "u"], array int], dynamic none]
    let b := union [known "util.Map" [known "X$1" [unknown "v"], array int], dynamic (some "x")]
    (a.WellFormed ∧ b.WellFormed ∧ a.Legible ∧ b.Legible ∧ a.render = b.render) ∧ a == b := by
  intro a b
  have hmap : IsPlainName "util.Map" := by decide
  have hclass : IsPlainName "X$1" := by decide
  have ha : a.Legible := by simp [a, int, members?, hmap, hclass]
  have hb : b.Legible := by simp [b, int, members?, hmap, hclass]
  have hrender : a.render = b.render := by simp [a, b, render, renderWith, renderRest]
  have hwf : a.WellFormed ∧ b.WellFormed := by decide
  exact ⟨⟨hwf.1, hwf.2, ha, hb, hrender⟩, beq_of_render_eq hwf.1 hwf.2 ha hb hrender⟩

end ExprTyping.Ty
