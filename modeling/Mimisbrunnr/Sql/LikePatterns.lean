import Mimisbrunnr.Sql.PlanMeaning

/-!
# LIKE patterns

What a pattern matches, and the two forms that are planned as a comparison of
texts: a pattern without wildcards, and one whose only wildcard is a percent sign
at its end. The planner cuts the first and the last byte off a pattern before it
looks inside, which a character of more bytes at either end does not survive.
-/

namespace Mimisbrunnr.Sql

set_option autoImplicit false

open Mimisbrunnr.Ontology
open Mimisbrunnr.Query
open Mimisbrunnr.Types

/-- A percent sign stands for any characters, an underscore for one. -/
inductive LikeMatches : List Char → List Char → Prop where
  | done : LikeMatches [] []
  | any (pattern skipped string : List Char) (rest : LikeMatches pattern string) :
      LikeMatches ('%' :: pattern) (skipped ++ string)
  | one (pattern : List Char) (char : Char) (string : List Char)
      (rest : LikeMatches pattern string) : LikeMatches ('_' :: pattern) (char :: string)
  | same (pattern : List Char) (char : Char) (string : List Char) (noPercent : char ≠ '%')
      (noUnderscore : char ≠ '_') (rest : LikeMatches pattern string) :
      LikeMatches (char :: pattern) (char :: string)

def Plain (pattern : List Char) : Prop := '%' ∉ pattern ∧ '_' ∉ pattern

private theorem plain_cons_iff (char : Char) (pattern : List Char) :
    Plain (char :: pattern) ↔ char ≠ '%' ∧ char ≠ '_' ∧ Plain pattern := by
  simp only [Plain, List.mem_cons, not_or, ne_comm (a := char)]
  tauto

theorem like_plain_append_iff (plain : List Char) (pattern string : List Char)
    (free : Plain plain) :
    LikeMatches (plain ++ pattern) string ↔
      ∃ rest, string = plain ++ rest ∧ LikeMatches pattern rest := by
  induction plain generalizing string with
  | nil => simp
  | cons char plain ih =>
      obtain ⟨noPercent, noUnderscore, later⟩ := (plain_cons_iff char plain).mp free
      constructor
      · intro found
        cases found with
        | any _ skipped string rest => exact absurd rfl noPercent
        | one _ other string rest => exact absurd rfl noUnderscore
        | same _ _ string _ _ rest =>
            obtain ⟨last, shape, found⟩ := (ih string later).mp rest
            exact ⟨last, congrArg _ shape, found⟩
      · intro found
        obtain ⟨rest, shape, found⟩ := found
        rw [shape]
        exact .same _ char _ noPercent noUnderscore ((ih _ later).mpr ⟨rest, rfl, found⟩)

private theorem like_nil_iff (string : List Char) : LikeMatches [] string ↔ string = [] := by
  constructor
  · intro found
    cases found
    rfl
  · intro empty
    rw [empty]
    exact .done

private theorem like_percent_iff (string : List Char) : LikeMatches ['%'] string ↔ True := by
  rw [iff_true]
  have found := LikeMatches.any [] string [] .done
  rw [List.append_nil] at found
  exact found

private theorem like_plain_iff (plain string : List Char) (free : Plain plain) :
    LikeMatches plain string ↔ string = plain := by
  have split := like_plain_append_iff plain [] string free
  rw [List.append_nil] at split
  simp only [split, like_nil_iff, exists_eq_right, List.append_nil]

private theorem like_prefix_iff (plain string : List Char) (free : Plain plain) :
    LikeMatches (plain ++ ['%']) string ↔ plain <+: string := by
  rw [like_plain_append_iff plain ['%'] string free]
  simp only [like_percent_iff, and_true]
  apply exists_congr
  intro rest
  exact eq_comm

/-- The strings that a comparison with a text finds. -/
def Finds (op : CmpOp) (needle string : String) : Prop :=
  match op with
  | .prefix_ => needle.toList <+: string.toList
  | .eq => string = needle
  | _ => False

theorem answer_eq_finds (x : QueryExecutor) (key : TagId) (op : CmpOp) (needle : String)
    (either : op = .prefix_ ∨ op = .eq) :
    x.answer (.hasAttr key op (.text needle)) =
      {oid | ∃ string, x.Carries oid (.attr key (.text string)) ∧ Finds op needle string} := by
  cases either with
  | inl isPrefix =>
      rw [isPrefix]
      rfl
  | inr isEq =>
      rw [isEq]
      ext oid
      constructor
      · intro carried
        exact ⟨needle, carried, rfl⟩
      · intro found
        obtain ⟨string, carried, same⟩ := found
        rw [same] at carried
        exact carried

/-- The first and the last byte of the pattern are characters, or it has no two bytes. -/
def Cuttable (pattern : String) : Prop :=
  pattern.utf8ByteSize < 2 ∨
    (∀ first ∈ pattern.toList.head?, first.utf8Size = 1) ∧
      ∀ last ∈ pattern.toList.getLast?, last.utf8Size = 1

instance cuttableDecidable (pattern : String) : Decidable (Cuttable pattern) :=
  @instDecidableOr _ _ (Nat.decLt _ _)
    (@instDecidableAnd _ _ (Option.decidableForallMem pattern.toList.head?)
      (Option.decidableForallMem pattern.toList.getLast?))

private theorem short_pattern (pattern : String) (short : pattern.utf8ByteSize < 2) :
    (pattern.toList.drop 1).dropLast = [] := by
  cases shape : pattern.toList with
  | nil => rfl
  | cons first rest =>
      cases rest with
      | nil => rfl
      | cons second rest =>
          have whole : pattern = String.ofList (first :: second :: rest) := by
            rw [← shape, String.ofList_toList]
          have firstSize := first.utf8Size_pos
          have secondSize := second.utf8Size_pos
          rw [whole, String.ofList_cons, String.ofList_cons, String.utf8ByteSize_append,
            String.utf8ByteSize_append, String.utf8ByteSize_singleton,
            String.utf8ByteSize_singleton] at short
          omega

private theorem long_pattern (pattern : String) (long : 2 ≤ pattern.utf8ByteSize) : pattern.toList ≠
    [] := by
  intro empty
  rw [String.toList_eq_nil_iff] at empty
  rw [empty] at long
  exact absurd long (by decide)

theorem middle_slice_eq (pattern : String) :
    middleSlice pattern =
      if Cuttable pattern then .ok (pattern.toList.drop 1).dropLast else .error .panicked := by
  unfold middleSlice
  by_cases long : 2 ≤ pattern.utf8ByteSize
  · have some_ := long_pattern pattern long
    have first := List.head?_eq_some_head some_
    have last := List.getLast?_eq_some_getLast some_
    have ends : Cuttable pattern ↔
        (pattern.toList.head some_).utf8Size = 1 ∧ (pattern.toList.getLast some_).utf8Size = 1 := by
      unfold Cuttable
      rw [or_iff_right (Nat.not_lt.mpr long), first, last]
      simp
    rw [if_pos long, first, last]
    exact if_congr ends.symm rfl rfl
  · have short := Nat.lt_of_not_le long
    have cuttable : Cuttable pattern := Or.inl short
    rw [if_neg long, if_pos cuttable, short_pattern pattern short]

theorem mem_drop_last (pattern : List Char) (char : Char) (member : char ∈ pattern.dropLast) :
    pattern.head? = some char ∨ char ∈ (pattern.drop 1).dropLast := by
  cases pattern with
  | nil => cases member
  | cons first rest =>
      cases rest with
      | nil => cases member
      | cons second rest =>
          rw [List.dropLast_cons_cons] at member
          cases List.mem_cons.mp member with
          | inl same => exact Or.inl (congrArg some same.symm)
          | inr inside => exact Or.inr inside

private theorem mem_of_ends (pattern : List Char) (char : Char) (member : char ∈ pattern) :
    pattern.head? = some char ∨ char ∈ (pattern.drop 1).dropLast ∨
      pattern.getLast? = some char := by
  have some_ : pattern ≠ [] := List.ne_nil_of_mem member
  rw [← List.dropLast_concat_getLast some_, List.mem_append, List.mem_singleton] at member
  cases member with
  | inl front =>
      cases mem_drop_last pattern char front with
      | inl first => exact Or.inl first
      | inr inside => exact Or.inr (Or.inl inside)
  | inr last =>
      rw [last]
      exact Or.inr (Or.inr (List.getLast?_eq_some_getLast some_))

theorem plan_like_panics_iff (column pattern : String) (ontology : OntologyState) :
    planLike column pattern ontology = .error .panicked ↔ ¬ Cuttable pattern := by
  unfold planLike
  rw [middle_slice_eq]
  by_cases cuttable : Cuttable pattern
  · rw [if_pos cuttable]
    apply iff_of_false _ (not_not.mpr cuttable)
    simp only [Bind.bind, Except.bind]
    split
    · nofun
    · unfold resolveTag
      cases ontology.names.lookup column with
      | none => nofun
      | some key =>
          dsimp only
          split <;> nofun
  · rw [if_neg cuttable]
    exact iff_of_true rfl cuttable

/-- The planned forms of a pattern. -/
theorem plan_like_ok (column pattern : String) (ontology : OntologyState) (query : Types.Query)
    (planned : planLike column pattern ontology = .ok query) :
    ∃ key, resolveTag column ontology = .ok key ∧
      ((∃ body, pattern.toList = body ++ ['%'] ∧ Plain body ∧
          query = .hasAttr key .prefix_ (.text (String.ofList body))) ∨
        (∃ needle, pattern.toList.head? = some '%' ∧ pattern.toList.getLast? ≠ some '%' ∧
          query = .hasAttr key .contains needle) ∨
        Plain pattern.toList ∧ query = .hasAttr key .eq (.text pattern)) := by
  have cuttable : Cuttable pattern := by
    by_contra other
    rw [(plan_like_panics_iff column pattern ontology).mpr other] at planned
    cases planned
  unfold planLike at planned
  rw [middle_slice_eq, if_pos cuttable] at planned
  simp only [Bind.bind, Except.bind] at planned
  split at planned
  · cases planned
  · next clean =>
      obtain ⟨noUnderscore, noInner⟩ := not_or.mp clean
      cases resolved : resolveTag column ontology with
      | error err =>
          rw [resolved] at planned
          cases planned
      | ok key =>
          rw [resolved] at planned
          refine ⟨key, rfl, ?_⟩
          have noPercent (free : pattern.toList.head? ≠ some '%')
              (member : '%' ∈ pattern.toList) : pattern.toList.getLast? = some '%' := by
            rcases mem_of_ends pattern.toList '%' member with lead | inner | trail
            · exact absurd lead free
            · exact absurd inner noInner
            · exact trail
          by_cases lead : pattern.toList.head? = some '%'
          · by_cases trail : pattern.toList.getLast? = some '%'
            · simp [lead, trail] at planned
            · simp only [lead, trail, decide_true, decide_false, Except.ok.injEq] at planned
              exact Or.inr (Or.inl ⟨_, lead, trail, planned.symm⟩)
          · by_cases trail : pattern.toList.getLast? = some '%'
            · simp only [lead, trail, decide_true, decide_false, Except.ok.injEq] at planned
              refine Or.inl ⟨pattern.toList.dropLast, ?_, ?_, planned.symm⟩
              · exact (List.dropLast_append_getLast? '%' trail).symm
              · refine ⟨?_, fun member => noUnderscore (List.mem_of_mem_dropLast member)⟩
                intro member
                cases mem_drop_last pattern.toList '%' member with
                | inl first => exact lead first
                | inr inside => exact noInner inside
            · simp only [lead, trail, decide_false, Except.ok.injEq] at planned
              exact Or.inr (Or.inr ⟨⟨fun member => trail (noPercent lead member), noUnderscore⟩,
                planned.symm⟩)

/-- The planner returns without a panic, plans the two forms as comparisons with a text, and a
planned comparison finds the strings that the pattern matches. -/
def PlansFaithfully (column pattern : String) (ontology : OntologyState) : Prop :=
  planLike column pattern ontology ≠ .error .panicked ∧
    ∀ query, planLike column pattern ontology = .ok query →
      ∃ key, resolveTag column ontology = .ok key ∧
        (∀ body, pattern.toList = body ++ ['%'] → Plain body →
          query = .hasAttr key .prefix_ (.text (String.ofList body))) ∧
        (Plain pattern.toList → query = .hasAttr key .eq (.text pattern)) ∧
        ∀ op needle, query = .hasAttr key op (.text needle) → op = .prefix_ ∨ op = .eq →
          (∀ string, Finds op needle string ↔ LikeMatches pattern.toList string.toList) ∧
            ∀ x : QueryExecutor, x.Agrees → x.CollisionFree query →
              ∃ result, x.evaluate query = .ok result ∧
                (result : Set Nat) = ObjectId.low32 '' {oid | ∃ string,
                  x.Carries oid (.attr key (.text string)) ∧
                    LikeMatches pattern.toList string.toList}

theorem finds_iff_like (pattern needle : String) (op : CmpOp)
    (form : (op = .prefix_ ∧ pattern.toList = needle.toList ++ ['%'] ∧ Plain needle.toList) ∨
      op = .eq ∧ pattern = needle ∧ Plain needle.toList) (string : String) :
    Finds op needle string ↔ LikeMatches pattern.toList string.toList := by
  cases form with
  | inl isPrefix =>
      obtain ⟨rfl, shape, free⟩ := isPrefix
      rw [shape, like_prefix_iff _ _ free]
      rfl
  | inr isEq =>
      obtain ⟨rfl, rfl, free⟩ := isEq
      rw [like_plain_iff _ _ free, String.toList_inj]
      rfl

private theorem evaluate_finds (x : QueryExecutor) (agrees : x.Agrees) (key : TagId) (op : CmpOp)
    (needle : String) (either : op = .prefix_ ∨ op = .eq)
    (free : x.CollisionFree (.hasAttr key op (.text needle))) :
    ∃ result, x.evaluate (.hasAttr key op (.text needle)) = .ok result ∧
      (result : Set Nat) = ObjectId.low32 '' {oid | ∃ string,
        x.Carries oid (.attr key (.text string)) ∧ Finds op needle string} := by
  rw [← answer_eq_finds x key op needle either]
  cases either with
  | inl isPrefix =>
      rw [isPrefix] at free ⊢
      exact (QueryExecutor.evaluate_eq_set_semantics x _ agrees free rfl rfl).2.1 rfl
  | inr isEq =>
      rw [isEq] at free ⊢
      exact (QueryExecutor.evaluate_eq_set_semantics x _ agrees free rfl rfl).2.1 rfl

/-- A pattern is planned faithfully just when its ends can be cut off. -/
theorem plan_like_faithful_iff (column pattern : String) (ontology : OntologyState) :
    PlansFaithfully column pattern ontology ↔ Cuttable pattern := by
  constructor
  · intro faithful
    by_contra other
    exact faithful.1 ((plan_like_panics_iff column pattern ontology).mpr other)
  · intro cuttable
    refine ⟨fun panics => (plan_like_panics_iff column pattern ontology).mp panics cuttable, ?_⟩
    intro query planned
    obtain ⟨key, resolved, form⟩ := plan_like_ok column pattern ontology query planned
    refine ⟨key, resolved, ?_, ?_, ?_⟩
    · intro body shape free
      rcases form with ⟨other, shape', -, rfl⟩ | ⟨needle, -, noTrail, -⟩ | ⟨plain, -⟩
      · rw [List.append_cancel_right (shape.symm.trans shape')]
      · rw [shape, List.getLast?_concat] at noTrail
        exact absurd rfl noTrail
      · rw [shape] at plain
        exact absurd (List.mem_append_right body List.mem_cons_self) plain.1
    · intro free
      rcases form with ⟨other, shape, -, -⟩ | ⟨needle, lead, -, -⟩ | ⟨-, same⟩
      · rw [shape] at free
        exact absurd (List.mem_append_right other List.mem_cons_self) free.1
      · exact absurd (List.mem_of_mem_head? lead) free.1
      · exact same
    · intro op needle same either
      have finds (string : String) : Finds op needle string ↔
          LikeMatches pattern.toList string.toList := by
        apply finds_iff_like pattern needle op
        rcases form with ⟨body, shape, free, planned⟩ | ⟨other, -, -, planned⟩ | ⟨free, planned⟩
        · rw [same] at planned
          cases planned
          rw [String.toList_ofList]
          exact Or.inl ⟨rfl, shape, free⟩
        · rw [same] at planned
          cases planned
          cases either with
          | inl wrong => cases wrong
          | inr wrong => cases wrong
        · rw [same] at planned
          cases planned
          exact Or.inr ⟨rfl, rfl, free⟩
      refine ⟨finds, ?_⟩
      intro x agrees free
      rw [same] at free ⊢
      obtain ⟨result, evaluated, found⟩ := evaluate_finds x agrees key op needle either free
      simp only [finds] at found
      exact ⟨result, evaluated, found⟩

/-- A pattern that starts with an accented letter. -/
theorem accented_pattern_panics :
    planLike "title" "\u00e9%" library = .error .panicked ∧
      resolveTag "title" library = .ok 7 ∧ ¬ PlansFaithfully "title" "\u00e9%" library := by
  have panics := (plan_like_panics_iff "title" "\u00e9%" library).mpr (by decide +kernel)
  have resolved : resolveTag "title" library = .ok 7 := by
    rw [resolveTag, library_knows "title" (Or.inr rfl)]
    rfl
  exact ⟨panics, resolved, fun faithful => faithful.1 panics⟩

end Mimisbrunnr.Sql
