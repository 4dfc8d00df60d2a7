import Mathlib.Data.List.Basic

/-!
# Storage paths

Every operation of a storage backend validates its path first and uses the cleaned one.  A path is
accepted if it is relative, never goes up and names something; the cleaned path is the list of its
normal components, so that two spellings of one list are one object.  Errors are the reasons of
`InvalidPath`.
-/

namespace IcefallDB

/-- A component of a relative path. -/
inductive Component
  | normal (component : List Char)
  | curDir
  | parentDir
  deriving DecidableEq

namespace Component

def ofSegment (segment : List Char) : Component :=
  if segment = ['.'] then .curDir
  else if segment = ['.', '.'] then .parentDir
  else .normal segment

/-- The name of a normal component. -/
def name? : Component → Option (List Char)
  | .normal component => some component
  | .curDir => none
  | .parentDir => none

end Component

/-- Components of a path; repeated and trailing separators count for nothing. -/
def pathComponents (raw : List Char) : List Component :=
  ((raw.splitOn '/').filter fun segment => !segment.isEmpty).map Component.ofSegment

/-- Add components to a cleaned path. -/
def cleanComponents (raw : String) : List Char → List Component → Except String (List Char)
  | cleaned, [] => .ok cleaned
  | cleaned, .normal component :: rest =>
    cleanComponents raw (if cleaned.isEmpty then component else cleaned ++ '/' :: component) rest
  | cleaned, .curDir :: rest => cleanComponents raw cleaned rest
  | _, .parentDir :: _ => .error s!"path traversal is not allowed: {raw}"

/-- The cleaned path of an accepted one. -/
def validatePath (raw : String) : Except String String :=
  if raw.toList.isEmpty then .error "path cannot be empty"
  else if raw.toList.head? = some '/' then .error s!"absolute paths are not allowed: {raw}"
  else match cleanComponents raw [] (pathComponents raw.toList) with
    | .error reason => .error reason
    | .ok cleaned =>
      if cleaned.isEmpty then .error s!"path cannot be empty: {raw}"
      else .ok (String.ofList cleaned)

/-- Names along a path. -/
def pathNames (raw : List Char) : List (List Char) :=
  (pathComponents raw).filterMap Component.name?

/-- A segment that names something. -/
structure IsPathName (name : List Char) : Prop where
  ne_nil : name ≠ []
  separator : '/' ∉ name
  ne_curDir : name ≠ ['.']
  ne_parentDir : name ≠ ['.', '.']

theorem IsPathName.ofSegment {name : List Char} (isName : IsPathName name) :
    Component.ofSegment name = .normal name := by
  rw [Component.ofSegment, if_neg isName.ne_curDir, if_neg isName.ne_parentDir]

theorem separator_notMem_of_mem_splitOn {raw segment : List Char}
    (member : segment ∈ raw.splitOn '/') : '/' ∉ segment := by
  induction raw generalizing segment with
  | nil =>
      rw [List.splitOn_nil, List.mem_singleton] at member
      exact member ▸ List.not_mem_nil
  | cons char raw ih =>
      rw [List.splitOn_cons_eq_if_modifyHead] at member
      split at member
      · rcases List.mem_cons.mp member with rfl | later
        · exact List.not_mem_nil
        · exact ih later
      · rename_i other
        cases split : raw.splitOn '/' with
        | nil => exact absurd split (List.splitOn_ne_nil _ _)
        | cons first rest =>
            rw [split] at member ih
            rcases List.mem_cons.mp member with rfl | later
            · intro inside
              rcases List.mem_cons.mp inside with rfl | inside
              · exact other (beq_self_eq_true _)
              · exact ih List.mem_cons_self inside
            · exact ih (List.mem_cons_of_mem first later)

theorem isPathName_of_mem {raw name : List Char} (member : name ∈ pathNames raw) :
    IsPathName name := by
  obtain ⟨component, member, named⟩ := List.mem_filterMap.mp member
  obtain ⟨segment, kept, rfl⟩ := List.mem_map.mp member
  obtain ⟨split, filled⟩ := List.mem_filter.mp kept
  rw [Component.ofSegment] at named
  split at named
  · cases named
  · split at named
    · cases named
    · rename_i current parent
      obtain rfl := Option.some.inj named
      refine ⟨?_, separator_notMem_of_mem_splitOn split, current, parent⟩
      rintro rfl
      cases filled

/-- Joining names again gives them back. -/
theorem pathComponents_intercalate {names : List (List Char)}
    (isName : ∀ name ∈ names, IsPathName name) :
    pathComponents (['/'].intercalate names) = names.map .normal := by
  cases names with
  | nil => rfl
  | cons first rest =>
      rw [pathComponents,
        List.splitOn_intercalate '/' (fun name member => (isName name member).separator)
          (List.cons_ne_nil first rest), List.filter_eq_self.mpr]
      · exact List.map_congr_left fun name member => (isName name member).ofSegment
      · intro name member
        cases name with
        | nil => exact absurd rfl (isName [] member).ne_nil
        | cons _ _ => rfl

theorem intercalate_ne_nil {names : List (List Char)} (named : names ≠ [])
    (filled : ∀ name ∈ names, name ≠ []) : ['/'].intercalate names ≠ [] := by
  cases names with
  | nil => exact absurd rfl named
  | cons first rest =>
      have first_ne := filled first List.mem_cons_self
      cases rest with
      | nil => rwa [List.intercalate_singleton]
      | cons second rest =>
          rw [List.intercalate_cons_cons, List.append_assoc]
          exact List.append_ne_nil_of_left_ne_nil first_ne _

theorem intercalate_append_singleton {names : List (List Char)} (named : names ≠ [])
    (name : List Char) :
    ['/'].intercalate (names ++ [name]) = ['/'].intercalate names ++ '/' :: name := by
  induction names with
  | nil => exact absurd rfl named
  | cons first rest ih =>
      cases rest with
      | nil => simp
      | cons second rest =>
          have later := ih (List.cons_ne_nil second rest)
          rw [List.cons_append, List.intercalate_cons_of_ne_nil (by simp), later,
            List.intercalate_cons_of_ne_nil (List.cons_ne_nil second rest)]
          simp only [List.append_assoc]

/-- Cleaning adds the names to what is there, unless the path goes up. -/
theorem cleanComponents_eq_ok_iff {raw : String} {components : List Component}
    (filled : ∀ name ∈ components.filterMap Component.name?, name ≠ []) {cleaned : List Char} :
    cleanComponents raw [] components = .ok cleaned ↔
      .parentDir ∉ components ∧
        cleaned = ['/'].intercalate (components.filterMap Component.name?) := by
  suffices general : ∀ before : List (List Char), (∀ name ∈ before, name ≠ []) →
      (cleanComponents raw (['/'].intercalate before) components = .ok cleaned ↔
        .parentDir ∉ components ∧
          cleaned = ['/'].intercalate (before ++ components.filterMap Component.name?)) from
    general [] nofun
  induction components with
  | nil =>
      intro before _
      simp [cleanComponents, eq_comm]
  | cons component components ih =>
      intro before filled_before
      cases component with
      | curDir =>
          have skip : (Component.curDir :: components).filterMap Component.name? =
              components.filterMap Component.name? := rfl
          rw [skip] at filled ⊢
          simpa [cleanComponents] using ih filled before filled_before
      | parentDir => simp [cleanComponents]
      | normal name =>
          have joined : (if (['/'].intercalate before).isEmpty then name
              else ['/'].intercalate before ++ '/' :: name) =
                ['/'].intercalate (before ++ [name]) := by
            by_cases named : before = []
            · rw [named]
              exact List.intercalate_singleton.symm
            · rw [if_neg (by simpa using intercalate_ne_nil named filled_before),
                intercalate_append_singleton named]
          have filled_all : ∀ other ∈ before ++ [name], other ≠ [] := by
            intro other member
            rcases List.mem_append.mp member with earlier | last
            · exact filled_before other earlier
            · exact filled other (List.mem_singleton.mp last ▸ List.mem_cons_self)
          rw [cleanComponents, joined,
            ih (fun other member => filled other (List.mem_cons_of_mem name member)) _ filled_all]
          simp [Component.name?]

theorem head?_intercalate {names : List (List Char)} (isName : ∀ name ∈ names, IsPathName name) :
    (['/'].intercalate names).head? ≠ some '/' := by
  cases names with
  | nil => nofun
  | cons first rest =>
      have own := isName first List.mem_cons_self
      have first_ne : first.head? ≠ some '/' :=
        fun head => own.separator (List.mem_of_mem_head? head)
      cases rest with
      | nil => rwa [List.intercalate_singleton]
      | cons second rest =>
          rw [List.intercalate_cons_cons, List.append_assoc, List.head?_append_of_ne_nil _ own.ne_nil]
          exact first_ne

/-- A path is accepted exactly if it is relative, never goes up and has a name, and the cleaned path
joins its names. -/
theorem validatePath_eq_ok_iff {raw cleaned : String} :
    validatePath raw = .ok cleaned ↔
      raw.toList.head? ≠ some '/' ∧ .parentDir ∉ pathComponents raw.toList ∧
        pathNames raw.toList ≠ [] ∧
          cleaned.toList = ['/'].intercalate (pathNames raw.toList) := by
  have filled : ∀ name ∈ pathNames raw.toList, name ≠ [] :=
    fun name member => (isPathName_of_mem member).ne_nil
  by_cases empty : raw.toList = []
  · simp [validatePath, empty, pathNames, pathComponents]
  by_cases absolute : raw.toList.head? = some '/'
  · simp [validatePath, empty, absolute]
  rw [validatePath, if_neg (by simpa using empty), if_neg absolute]
  cases outcome : cleanComponents raw [] (pathComponents raw.toList) with
  | error reason =>
      refine iff_of_false nofun fun ⟨_, stays, _, cleaned_eq⟩ => ?_
      rw [(cleanComponents_eq_ok_iff filled).mpr ⟨stays, cleaned_eq⟩] at outcome
      cases outcome
  | ok joined =>
      obtain ⟨stays, rfl⟩ := (cleanComponents_eq_ok_iff filled).mp outcome
      change _ ↔ _ ∧ _ ∧ _ ∧ cleaned.toList = ['/'].intercalate (pathNames raw.toList)
      by_cases named : pathNames raw.toList = []
      · refine iff_of_false ?_ fun ⟨_, _, some_name, _⟩ => some_name named
        change (if (['/'].intercalate (pathNames raw.toList)).isEmpty then _ else _) ≠ _
        rw [named]
        nofun
      · change (if (['/'].intercalate (pathNames raw.toList)).isEmpty then _ else _) = _ ↔ _
        rw [if_neg (by simpa using intercalate_ne_nil named filled), Except.ok.injEq,
          ← String.toList_inj, String.toList_ofList]
        exact ⟨fun cleaned_eq => ⟨absolute, stays, named, cleaned_eq.symm⟩,
          fun ⟨_, _, _, cleaned_eq⟩ => cleaned_eq.symm⟩

/-- Cleaning is idempotent, and two accepted paths are one object if and only if they have the same
names. -/
theorem canonical_of_validatePath {raw cleaned : String} (accepted : validatePath raw = .ok cleaned) :
    validatePath cleaned = .ok cleaned ∧
      pathComponents cleaned.toList = (pathNames raw.toList).map .normal ∧
        ∀ other cleaned', validatePath other = .ok cleaned' →
          (cleaned' = cleaned ↔ pathNames other.toList = pathNames raw.toList) := by
  obtain ⟨-, -, named, cleaned_eq⟩ := validatePath_eq_ok_iff.mp accepted
  have isName : ∀ name ∈ pathNames raw.toList, IsPathName name := fun _ => isPathName_of_mem
  have components := pathComponents_intercalate isName
  rw [← cleaned_eq] at components
  have names : pathNames cleaned.toList = pathNames raw.toList := by
    rw [pathNames, components]
    exact (List.filterMap_map ..).trans List.filterMap_some
  refine ⟨validatePath_eq_ok_iff.mpr ⟨?_, ?_, names ▸ named, names ▸ cleaned_eq⟩, components,
    fun other cleaned' accepted' => ?_⟩
  · rw [cleaned_eq]
    exact head?_intercalate isName
  · rw [components]
    simp
  · obtain ⟨-, -, -, cleaned_eq'⟩ := validatePath_eq_ok_iff.mp accepted'
    constructor
    · rintro rfl
      have components' := pathComponents_intercalate
        (fun _ => isPathName_of_mem : ∀ name ∈ pathNames other.toList, IsPathName name)
      rw [← cleaned_eq', components] at components'
      exact (List.map_injective_iff.mpr (fun _ _ same => Component.normal.inj same) components').symm
    · intro same
      rw [← String.toList_inj, cleaned_eq, cleaned_eq', same]

theorem writeLock_canonical : validatePath "./t//_write.lock" = .ok "t/_write.lock" ∧
    validatePath "t/_write.lock" = .ok "t/_write.lock" ∧
      pathComponents "t/_write.lock".toList = (pathNames "./t//_write.lock".toList).map .normal ∧
        ∀ other cleaned', validatePath other = .ok cleaned' →
          (cleaned' = "t/_write.lock" ↔
            pathNames other.toList = pathNames "./t//_write.lock".toList) := by
  have accepted : validatePath "./t//_write.lock" = .ok "t/_write.lock" := by decide +kernel
  exact ⟨accepted, canonical_of_validatePath accepted⟩

end IcefallDB
