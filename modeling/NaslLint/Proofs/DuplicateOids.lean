import Mathlib.Data.Finset.Card
import Mathlib.Data.List.Induction
import NaslLint.Proofs.FileTree
import NaslLint.Proofs.OidAgreement

/-!
# Counting identifiers that are used twice

A run over scripts keeps a table of the identifiers that it has seen, each with the file that used it
first. What it says of a script does not depend on the table but only on the scripts before it.

* `complaint?` is what is said of a script, in terms of the scripts before it;
* `judge_eq` says that one step agrees with it and keeps the table right, and `judgeAll_eq` that a
  whole run does;
* `filter_taken_complaints` counts the complaints about one identifier, and `length_complaints` all
  complaints: as many as there are scripts, less one for each accepted identifier.
-/

namespace NaslLint.Checks.DuplicateOid

/-! ## What is said of a script -/

def statedOid? (tree : FileTree) (file : Path) : Option (List Char) :=
  (tree.readText file).toOption.bind oid?

def isAccepted (oid : List Char) : Bool :=
  (wellFormed.matchStart? oid).isSome

def acceptedOid? (tree : FileTree) (file : Path) : Option (List Char) :=
  (statedOid? tree file).filter isAccepted

def unstated (tree : FileTree) (root file : Path) : Finding :=
  complain file s!"Could not find an OID in '{file.below root tree.here}'."

def refused (tree : FileTree) (root : Path) (oid : List Char) (file : Path) : Finding :=
  let shown := String.ofList oid
  complain file s!"Invalid OID {shown} found in '{file.below root tree.here}'."

/-- The complaint about an identifier that another file has used first. -/
def taken (tree : FileTree) (root : Path) (oid : List Char) (first file : Path) : Finding :=
  let shown := String.ofList oid
  complain file s!"OID {shown} already used by '{first.below root tree.here}'"

/-- What is said of a script, given the scripts before it. -/
def complaint? (tree : FileTree) (root : Path) (before : List Path) (file : Path) : Option Finding :=
  match statedOid? tree file with
  | none => some (unstated tree root file)
  | some oid =>
    if isAccepted oid then
      (before.find? fun f => statedOid? tree f == some oid).map fun first =>
        taken tree root oid first file
    else some (refused tree root oid file)

def complaints (tree : FileTree) (root : Path) : List Path → List Path → List Finding
  | _, [] => []
  | before, file :: more =>
    (complaint? tree root before file).toList ++ complaints tree root (before ++ [file]) more

section
variable {tree : FileTree} {root file relative : Path} {before files : List Path}
  {oid t : List Char} {seen : List (List Char × Path)}

theorem statedOid?_of_readText (hread : tree.readText file = .ok t) :
    statedOid? tree file = oid? t := by
  rw [statedOid?, hread]
  rfl

theorem complaint?_of_unstated (h : statedOid? tree file = none) :
    complaint? tree root before file = some (unstated tree root file) := by
  rw [complaint?, h]

theorem complaint?_of_refused (h : statedOid? tree file = some oid) (hoid : isAccepted oid = false) :
    complaint? tree root before file = some (refused tree root oid file) := by
  rw [complaint?, h]
  simp only [hoid, Bool.false_eq_true, if_false]

theorem complaint?_of_accepted (h : statedOid? tree file = some oid) (hoid : isAccepted oid = true) :
    complaint? tree root before file =
      (before.find? fun f => statedOid? tree f == some oid).map fun first =>
        taken tree root oid first file := by
  rw [complaint?, h]
  simp only [hoid, if_true]

/-- A script states no identifier, or one that is not accepted, or one that is and may be taken. -/
theorem complaint?_cases (tree : FileTree) (root : Path) (before : List Path) (file : Path) :
    (statedOid? tree file = none ∧
        complaint? tree root before file = some (unstated tree root file)) ∨
      (∃ oid, statedOid? tree file = some oid ∧ isAccepted oid = false ∧
        complaint? tree root before file = some (refused tree root oid file)) ∨
      ∃ oid, statedOid? tree file = some oid ∧ isAccepted oid = true ∧
        complaint? tree root before file =
          (before.find? fun f => statedOid? tree f == some oid).map fun first =>
            taken tree root oid first file := by
  cases hstated : statedOid? tree file with
  | none => exact .inl ⟨rfl, complaint?_of_unstated hstated⟩
  | some oid =>
      cases haccepted : isAccepted oid with
      | false => exact .inr (.inl ⟨oid, rfl, haccepted, complaint?_of_refused hstated haccepted⟩)
      | true => exact .inr (.inr ⟨oid, rfl, haccepted, complaint?_of_accepted hstated haccepted⟩)

/-! ## The table -/

/-- The table has, for each accepted identifier, the first of the files that use it. -/
def Remembers (tree : FileTree) (root : Path) (seen : List (List Char × Path))
    (before : List Path) : Prop :=
  ∀ oid, isAccepted oid = true →
    seen.lookup oid =
      (before.find? fun f => statedOid? tree f == some oid).map (·.below root tree.here)

theorem remembers_nil : Remembers tree root [] [] :=
  fun _ _ => rfl

/-- A script that adds no identifier leaves the table right. -/
theorem Remembers.concat_of_known (h : Remembers tree root seen before)
    (hknown : ∀ oid, isAccepted oid = true → statedOid? tree file = some oid →
      ∃ first, seen.lookup oid = some first) :
    Remembers tree root seen (before ++ [file]) := by
  intro oid hoid
  rw [List.find?_append]
  by_cases hfile : statedOid? tree file = some oid
  · obtain ⟨first, hfirst⟩ := hknown oid hoid hfile
    have hbefore := h oid hoid
    rw [hfirst] at hbefore ⊢
    obtain ⟨f, hf, rfl⟩ := Option.map_eq_some_iff.1 hbefore.symm
    rw [hf]
    rfl
  · simp [h oid hoid, hfile]

/-- A script with a new identifier is entered for it. -/
theorem Remembers.concat_of_new (h : Remembers tree root seen before)
    (hfile : statedOid? tree file = some oid) (hnew : seen.lookup oid = none) :
    Remembers tree root (seen ++ [(oid, file.below root tree.here)]) (before ++ [file]) := by
  intro oid' hoid'
  rw [List.find?_append, List.lookup_append, h oid' hoid', Option.map_or]
  by_cases heq : oid' = oid
  · subst heq
    simp [hfile]
  · have hne : (oid' == oid) = false := beq_false_of_ne heq
    simp [hfile, hne, Ne.symm heq, List.lookup_cons]

/-- **One step.** What is said of a script is right by the scripts before it, and the table stays
right. -/
theorem judge_eq (hseen : Remembers tree root seen before) (hread : tree.readText file = .ok t)
    (hroot : file.fromRoot? root tree.here = some relative) :
    (judge seen file relative t).1 = complaint? tree root before file ∧
      Remembers tree root (judge seen file relative t).2 (before ++ [file]) := by
  have hstated := statedOid?_of_readText hread
  have hbelow := Path.below_eq hroot
  cases hoid : oid? t with
  | none =>
      rw [hoid] at hstated
      rw [complaint?_of_unstated hstated, unstated, hbelow]
      simp only [judge, hoid]
      refine ⟨trivial, hseen.concat_of_known fun oid _ h => ?_⟩
      rw [hstated] at h
      cases h
  | some oid =>
      rw [hoid] at hstated
      by_cases haccepted : isAccepted oid = true
      · have hsome : (wellFormed.matchStart? oid).isNone = false := by
          rw [isAccepted] at haccepted
          exact Option.isNone_eq_false_iff.2 haccepted
        have hlookup := hseen oid haccepted
        rw [complaint?_of_accepted hstated haccepted]
        cases hfind : before.find? fun f => statedOid? tree f == some oid with
        | none =>
            rw [hfind] at hlookup
            simp only [judge, hoid, hsome, hlookup, Option.map_none, Bool.false_eq_true, if_false]
            refine ⟨trivial, ?_⟩
            rw [← hbelow]
            exact hseen.concat_of_new hstated hlookup
        | some first =>
            rw [hfind] at hlookup
            simp only [judge, hoid, hsome, hlookup, Option.map_some, Bool.false_eq_true, if_false]
            refine ⟨rfl, hseen.concat_of_known fun oid' _ h => ?_⟩
            rw [hstated] at h
            obtain rfl := Option.some.inj h
            exact ⟨_, hlookup⟩
      · rw [Bool.not_eq_true] at haccepted
        have hnone : (wellFormed.matchStart? oid).isNone = true := by
          rw [isAccepted, Option.isSome_eq_false_iff] at haccepted
          exact haccepted
        rw [complaint?_of_refused hstated haccepted, refused, hbelow]
        simp only [judge, hoid, hnone, if_true]
        refine ⟨trivial, hseen.concat_of_known fun oid' hoid' h => ?_⟩
        rw [hstated] at h
        obtain rfl := Option.some.inj h
        rw [haccepted] at hoid'
        cases hoid'

def scripts (files : List Path) : List Path :=
  files.filter fun f => f.suffix == ".nasl"

/-- **A whole run.** What is said of scripts that can be reached is right by the scripts before each
of them. -/
theorem judgeAll_eq (hfiles : tree.Reaches root (scripts files))
    (hseen : Remembers tree root seen before) :
    judgeAll tree root seen files = .done (complaints tree root before (scripts files)) := by
  induction files generalizing seen before with
  | nil => rfl
  | cons file files ih =>
      by_cases hsuffix : file.suffix = ".nasl"
      · have hscripts : scripts (file :: files) = file :: scripts files := by
          simp [scripts, hsuffix]
        rw [hscripts] at hfiles
        obtain ⟨⟨⟨t, hread⟩, relative, hroot⟩, hfiles⟩ := List.forall_mem_cons.1 hfiles
        obtain ⟨hfinding, hseen⟩ := judge_eq hseen hread hroot
        rw [judgeAll, if_neg (by simp [hsuffix]), hroot, hscripts, complaints]
        simp only [hread, hfinding, ih hfiles hseen]
        rfl
      · have hscripts : scripts (file :: files) = scripts files := by
          simp [scripts, hsuffix]
        rw [hscripts] at hfiles
        rw [judgeAll, if_pos (by simpa using hsuffix), hscripts]
        exact ih hfiles hseen

/-! ## Counting complaints -/

theorem complaints_append (before files files' : List Path) :
    complaints tree root before (files ++ files') =
      complaints tree root before files ++ complaints tree root (before ++ files) files' := by
  induction files generalizing before with
  | nil => simp [complaints]
  | cons file files ih =>
      rw [List.cons_append, complaints, complaints, ih, List.append_assoc, List.append_assoc]
      rfl

theorem complaints_concat (files : List Path) (file : Path) :
    complaints tree root [] (files ++ [file]) =
      complaints tree root [] files ++ (complaint? tree root files file).toList := by
  rw [complaints_append]
  simp [complaints]

theorem message_unstated (tree : FileTree) (root file : Path) :
    (unstated tree root file).message.toList = "Could not find an OID in '".toList ++
      ((file.below root tree.here).toString.toList ++ "'.".toList) := by
  change ("Could not find an OID in '" ++ (file.below root tree.here).toString ++ "'.").toList = _
  simp only [String.toList_append, List.append_assoc]

theorem message_refused (tree : FileTree) (root : Path) (oid : List Char) (file : Path) :
    (refused tree root oid file).message.toList = "Invalid OID ".toList ++ (oid ++
      (" found in '".toList ++ ((file.below root tree.here).toString.toList ++ "'.".toList))) := by
  change ("Invalid OID " ++ String.ofList oid ++ " found in '" ++
    (file.below root tree.here).toString ++ "'.").toList = _
  simp only [String.toList_append, String.toList_ofList, List.append_assoc]

theorem message_taken (tree : FileTree) (root : Path) (oid : List Char) (first file : Path) :
    (taken tree root oid first file).message.toList = "OID ".toList ++ (oid ++
      (" already used by '".toList ++
        ((first.below root tree.here).toString.toList ++ "'".toList))) := by
  change ("OID " ++ String.ofList oid ++ " already used by '" ++
    (first.below root tree.here).toString ++ "'").toList = _
  simp only [String.toList_append, String.toList_ofList, List.append_assoc]

def opens (start : List Char) (x : Finding) : Bool :=
  start.isPrefixOf x.message.toList

def unstatedStart : List Char :=
  "Could not find".toList

def refusedStart : List Char :=
  "Invalid OID".toList

def takenStart (oid : List Char) : List Char :=
  "OID ".toList ++ (oid ++ " already used by".toList)

theorem opens_eq_false {start : List Char} {x : Finding} {c d : Char}
    (hstart : start.head? = some c) (hx : x.message.toList.head? = some d) (h : c ≠ d) :
    opens start x = false := by
  obtain ⟨start, rfl⟩ := List.head?_eq_some_iff.1 hstart
  obtain ⟨rest, hrest⟩ := List.head?_eq_some_iff.1 hx
  rw [opens, hrest, List.isPrefixOf, beq_false_of_ne h, Bool.false_and]

theorem head?_unstated : (unstated tree root file).message.toList.head? = some 'C' := by
  rw [message_unstated]
  rfl

theorem head?_refused : (refused tree root oid file).message.toList.head? = some 'I' := by
  rw [message_refused]
  rfl

theorem head?_taken {first : Path} :
    (taken tree root oid first file).message.toList.head? = some 'O' := by
  rw [message_taken]
  rfl

theorem opens_unstated : opens unstatedStart (unstated tree root file) = true := by
  have hsplit : "Could not find an OID in '".toList = unstatedStart ++ " an OID in '".toList := by
    decide
  rw [opens, List.isPrefixOf_iff_prefix, message_unstated, hsplit, List.append_assoc]
  exact List.prefix_append _ _

theorem opens_refused : opens refusedStart (refused tree root oid file) = true := by
  have hsplit : "Invalid OID ".toList = refusedStart ++ " ".toList := by decide
  rw [opens, List.isPrefixOf_iff_prefix, message_refused, hsplit, List.append_assoc]
  exact List.prefix_append _ _

theorem opens_taken_iff {oid' : List Char} {first : Path} (hoid : ' ' ∉ oid) (hoid' : ' ' ∉ oid') :
    opens (takenStart oid) (taken tree root oid' first file) = true ↔ oid = oid' := by
  have hsplit : " already used by '".toList = " already used by".toList ++ " '".toList := by
    decide
  rw [opens, List.isPrefixOf_iff_prefix, message_taken, takenStart, List.prefix_append_right_inj,
    hsplit, List.append_assoc]
  constructor
  · intro h
    refine Text.eq_of_append_cons_prefix hoid hoid' (List.IsPrefix.trans ?_ h)
    exact (List.prefix_append_right_inj oid).2 ⟨"already used by".toList, rfl⟩
  · rintro rfl
    exact (List.prefix_append_right_inj oid).2 (List.prefix_append _ _)

/-- Complaints of a kind that depends on each script alone. -/
theorem filter_complaints {kind : Finding → Bool} {said : Path → Option Finding}
    (h : ∀ before file, (complaint? tree root before file).filter kind = said file)
    (before files : List Path) :
    (complaints tree root before files).filter kind = files.filterMap said := by
  induction files generalizing before with
  | nil => rfl
  | cons file files ih =>
      rw [complaints, List.filter_append, ih, ← Option.toList_filter, h, List.filterMap_cons]
      cases said file <;> rfl

def usersOf (tree : FileTree) (oid : List Char) (files : List Path) : List Path :=
  files.filter fun f => statedOid? tree f == some oid

theorem not_mem_of_statedOid? (h : statedOid? tree file = some oid) : ' ' ∉ oid := by
  obtain ⟨t, -, ht⟩ := Option.bind_eq_some_iff.1 h
  intro hmem
  exact absurd (oid?_chars ht ' ' hmem) (by decide)

/-- A script that states another identifier, or none, gets no complaint that this one is taken. -/
theorem filter_complaint?_of_ne (hoid : ' ' ∉ oid) (h : statedOid? tree file ≠ some oid) :
    (complaint? tree root before file).filter (opens (takenStart oid)) = none := by
  have hstart : (takenStart oid).head? = some 'O' := rfl
  rcases complaint?_cases tree root before file with
    ⟨-, hsaid⟩ | ⟨oid', -, -, hsaid⟩ | ⟨oid', hstated, -, hsaid⟩
  · simp [hsaid, Option.filter, opens_eq_false hstart head?_unstated (by decide)]
  · simp [hsaid, Option.filter, opens_eq_false hstart head?_refused (by decide)]
  · rw [hsaid, Option.filter_eq_none_iff]
    intro x hx
    obtain ⟨first, -, rfl⟩ := Option.map_eq_some_iff.1 hx
    rw [opens_taken_iff hoid (not_mem_of_statedOid? hstated)]
    rintro rfl
    exact h hstated

/-- **One identifier.** All scripts that state an accepted identifier, but for the first of them, are
told that the first has it. -/
theorem filter_taken_complaints (haccepted : isAccepted oid = true) (hoid : ' ' ∉ oid)
    (files : List Path) :
    (complaints tree root [] files).filter (opens (takenStart oid)) =
      (usersOf tree oid files).tail.map
        (taken tree root oid ((usersOf tree oid files).headD default)) := by
  induction files using List.reverseRecOn with
  | nil => rfl
  | append_singleton files file ih =>
      rw [complaints_concat, List.filter_append, ih, ← Option.toList_filter, usersOf, usersOf,
        List.filter_append]
      by_cases hfile : statedOid? tree file = some oid
      · rw [complaint?_of_accepted hfile haccepted, ← List.head?_filter]
        cases hbefore : files.filter fun f => statedOid? tree f == some oid with
        | nil => simp [hfile]
        | cons first later =>
            have htaken : opens (takenStart oid) (taken tree root oid first file) = true :=
              (opens_taken_iff hoid hoid).2 rfl
            simp [hfile, htaken, Option.filter]
      · rw [filter_complaint?_of_ne hoid hfile]
        simp [hfile]

/-- Nothing is said of a script exactly if it is the first with its identifier, and that is
accepted. -/
theorem complaint?_eq_none_iff :
    complaint? tree root before file = none ↔
      ∃ oid, acceptedOid? tree file = some oid ∧ oid ∉ before.filterMap (acceptedOid? tree) := by
  simp only [acceptedOid?, Option.filter_eq_some_iff, List.mem_filterMap]
  rcases complaint?_cases tree root before file with
    ⟨hstated, hsaid⟩ | ⟨oid, hstated, hrefused, hsaid⟩ | ⟨oid, hstated, haccepted, hsaid⟩
  · simp [hsaid, hstated]
  · simp [hsaid, hstated, hrefused]
  · simp [hsaid, hstated, haccepted]

/-- **All complaints.** There are as many as scripts, less one for each accepted identifier. -/
theorem length_complaints (tree : FileTree) (root : Path) (files : List Path) :
    (complaints tree root [] files).length + (files.filterMap (acceptedOid? tree)).toFinset.card =
      files.length := by
  induction files using List.reverseRecOn with
  | nil => rfl
  | append_singleton files file ih =>
      rw [complaints_concat, List.length_append, List.length_append, List.filterMap_append,
        List.toFinset_append, List.length_singleton, ← ih]
      cases hsaid : complaint? tree root files file with
      | none =>
          obtain ⟨oid, hoid, hnew⟩ := complaint?_eq_none_iff.1 hsaid
          have hfile : [file].filterMap (acceptedOid? tree) = [oid] := by
            rw [List.filterMap_cons_some hoid, List.filterMap_nil]
          have hcard := Finset.card_insert_of_notMem (mt List.mem_toFinset.1 hnew)
          rw [hfile, Finset.union_comm, List.toFinset_cons, List.toFinset_nil, Finset.insert_union,
            Finset.empty_union, hcard, Option.toList_none, List.length_nil]
          omega
      | some x =>
          have hknown : ([file].filterMap (acceptedOid? tree)).toFinset ⊆
              (files.filterMap (acceptedOid? tree)).toFinset := by
            intro oid hoid
            have hfile : acceptedOid? tree file = some oid := by
              simpa using List.mem_filterMap.1 (List.mem_toFinset.1 hoid)
            by_contra hnew
            have hnone : complaint? tree root files file = none :=
              complaint?_eq_none_iff.2 ⟨oid, hfile, mt List.mem_toFinset.2 hnew⟩
            rw [hsaid] at hnone
            cases hnone
          rw [Finset.union_eq_left.2 hknown, Option.toList_some, List.length_singleton]
          omega

theorem length_complaints_perm {files' : List Path} (h : files'.Perm files) :
    (complaints tree root [] files').length = (complaints tree root [] files).length := by
  have hoids : (files'.filterMap (acceptedOid? tree)).toFinset =
      (files.filterMap (acceptedOid? tree)).toFinset :=
    List.toFinset_eq_of_perm _ _ (h.filterMap _)
  have hcount' := length_complaints tree root files'
  have hcount := length_complaints tree root files
  rw [hoids, h.length_eq] at hcount'
  omega

/-! ## The kinds of complaints -/

theorem filter_unstated_complaint? :
    (complaint? tree root before file).filter (opens unstatedStart) =
      if (statedOid? tree file).isNone then some (unstated tree root file) else none := by
  have hstart : unstatedStart.head? = some 'C' := rfl
  rcases complaint?_cases tree root before file with
    ⟨hstated, hsaid⟩ | ⟨oid, hstated, -, hsaid⟩ | ⟨oid, hstated, -, hsaid⟩
  · simp [hsaid, hstated, Option.filter, opens_unstated]
  · simp [hsaid, hstated, Option.filter, opens_eq_false hstart head?_refused (by decide)]
  · rw [hsaid, hstated]
    cases before.find? fun f => statedOid? tree f == some oid with
    | none => rfl
    | some first => simp [Option.filter, opens_eq_false hstart head?_taken (by decide)]

theorem filter_refused_complaint? :
    (complaint? tree root before file).filter (opens refusedStart) =
      ((statedOid? tree file).filter fun oid => !isAccepted oid).map fun oid =>
        refused tree root oid file := by
  have hstart : refusedStart.head? = some 'I' := rfl
  rcases complaint?_cases tree root before file with
    ⟨hstated, hsaid⟩ | ⟨oid, hstated, hrefused, hsaid⟩ | ⟨oid, hstated, haccepted, hsaid⟩
  · simp [hsaid, hstated, Option.filter, opens_eq_false hstart head?_unstated (by decide)]
  · simp [hsaid, hstated, hrefused, Option.filter, opens_refused]
  · rw [hsaid, hstated]
    cases before.find? fun f => statedOid? tree f == some oid with
    | none => simp [haccepted, Option.filter]
    | some first =>
        simp [haccepted, Option.filter, opens_eq_false hstart head?_taken (by decide)]

theorem exists_complaint?_of_mem {x : Finding} (h : x ∈ complaints tree root before files) :
    ∃ file ∈ files, ∃ before', complaint? tree root before' file = some x := by
  induction files generalizing before with
  | nil => exact absurd h List.not_mem_nil
  | cons file files ih =>
      rcases List.mem_append.1 h with h | h
      · exact ⟨file, List.mem_cons_self, before, Option.mem_toList.1 h⟩
      · obtain ⟨f, hf, hsaid⟩ := ih h
        exact ⟨f, List.mem_cons_of_mem _ hf, hsaid⟩

/-- There are no other complaints than those of the three kinds. -/
theorem eq_of_mem_complaints {x : Finding} (h : x ∈ complaints tree root before files) :
    ∃ file ∈ files, x = unstated tree root file ∨ (∃ oid, x = refused tree root oid file) ∨
      ∃ oid first, statedOid? tree file = some oid ∧ isAccepted oid = true ∧
        x = taken tree root oid first file := by
  obtain ⟨file, hfile, before', hx⟩ := exists_complaint?_of_mem h
  refine ⟨file, hfile, ?_⟩
  rcases complaint?_cases tree root before' file with
    ⟨-, hsaid⟩ | ⟨oid, -, -, hsaid⟩ | ⟨oid, hstated, haccepted, hsaid⟩
  · rw [hsaid] at hx
    exact .inl (Option.some.inj hx).symm
  · rw [hsaid] at hx
    exact .inr (.inl ⟨oid, (Option.some.inj hx).symm⟩)
  · rw [hsaid] at hx
    obtain ⟨first, -, rfl⟩ := Option.map_eq_some_iff.1 hx
    exact .inr (.inr ⟨oid, first, hstated, haccepted, rfl⟩)

theorem severity_of_mem_complaints {x : Finding} (h : x ∈ complaints tree root before files) :
    x.severity = .error := by
  obtain ⟨file, -, rfl | ⟨oid, rfl⟩ | ⟨oid, first, -, -, rfl⟩⟩ := eq_of_mem_complaints h <;> rfl

theorem opens_of_mem_complaints {x : Finding} (h : x ∈ complaints tree root before files) :
    opens unstatedStart x = true ∨ opens refusedStart x = true ∨
      ∃ oid, isAccepted oid = true ∧ (∃ file ∈ files, statedOid? tree file = some oid) ∧
        opens (takenStart oid) x = true := by
  obtain ⟨file, hfile, rfl | ⟨oid, rfl⟩ | ⟨oid, first, hstated, haccepted, rfl⟩⟩ :=
    eq_of_mem_complaints h
  · exact .inl opens_unstated
  · exact .inr (.inl opens_refused)
  · have hoid := not_mem_of_statedOid? hstated
    exact .inr (.inr ⟨oid, haccepted, ⟨file, hfile, hstated⟩, (opens_taken_iff hoid hoid).2 rfl⟩)

end

end DuplicateOid

open DuplicateOid

/-- **Identifiers used twice are counted exactly.** About scripts that can be read and lie below the
root there is one error for each that states no identifier, one for each whose identifier is not
accepted, and for each accepted identifier one for each script that states it, but for the first of
them, whose path the error shows. There are no other findings, and their number does not depend on the
order of the files. -/
theorem oid_uses_counted {feed : Feed} {w : Surroundings}
    (h : w.tree.Reaches feed.root (scripts feed.files)) :
    ∃ found, duplicateOid.run feed w = .done found ∧ (∀ x ∈ found, x.severity = .error) ∧
      found.filter (opens unstatedStart) =
        ((scripts feed.files).filter fun f => (statedOid? w.tree f).isNone).map
          (unstated w.tree feed.root) ∧
      found.filter (opens refusedStart) =
        (scripts feed.files).filterMap (fun f =>
          ((statedOid? w.tree f).filter fun oid => !isAccepted oid).map fun oid =>
            refused w.tree feed.root oid f) ∧
      (∀ oid first later, isAccepted oid = true →
        usersOf w.tree oid (scripts feed.files) = first :: later →
        found.filter (opens (takenStart oid)) = later.map (taken w.tree feed.root oid first)) ∧
      (∀ x ∈ found, opens unstatedStart x = true ∨ opens refusedStart x = true ∨
        ∃ oid first later, isAccepted oid = true ∧
          usersOf w.tree oid (scripts feed.files) = first :: later ∧
          opens (takenStart oid) x = true) ∧
      ∀ files', files'.Perm feed.files → ∃ found',
        duplicateOid.run ⟨feed.root, files'⟩ w = .done found' ∧ found'.length = found.length := by
  refine ⟨_, judgeAll_eq h remembers_nil, fun x => severity_of_mem_complaints, ?_, ?_, ?_, ?_, ?_⟩
  · rw [filter_complaints fun _ _ => filter_unstated_complaint?, ← List.filterMap_eq_map,
      List.filterMap_filter]
    rfl
  · exact filter_complaints (fun _ _ => filter_refused_complaint?) _ _
  · intro oid first later haccepted husers
    have hstated : statedOid? w.tree first = some oid := by
      have hmem : first ∈ usersOf w.tree oid (scripts feed.files) := by simp [husers]
      simpa using (List.mem_filter.1 hmem).2
    rw [filter_taken_complaints haccepted (not_mem_of_statedOid? hstated), husers]
    rfl
  · intro x hx
    refine (opens_of_mem_complaints hx).imp_right (Or.imp_right ?_)
    rintro ⟨oid, haccepted, ⟨file, hfile, hstated⟩, hopens⟩
    have hmem : file ∈ usersOf w.tree oid (scripts feed.files) :=
      List.mem_filter.2 ⟨hfile, by simpa using hstated⟩
    obtain ⟨first, later, husers⟩ := List.exists_cons_of_ne_nil (List.ne_nil_of_mem hmem)
    exact ⟨oid, first, later, haccepted, husers, hopens⟩
  · intro files' hperm
    have hscripts : (scripts files').Perm (scripts feed.files) := hperm.filter _
    exact ⟨_, judgeAll_eq (h.perm hscripts) remembers_nil, length_complaints_perm hscripts⟩

/-- Scripts of which three share an identifier, with an include file and scripts without a proper
identifier between them. -/
def withRepeatedOid : Surroundings :=
  let file (name text : String) : Location × Entry :=
    ([name], .file 0o644 (Text.toLatin1 text.toList))
  { tree := { entries := [file "a.nasl" "script_oid(\"1.3.6.1.4.1.25623.1.0.10\");", file "b.inc" "",
      file "c.nasl" "script_oid(\"1.3.6.1.4.1.25623.1.0.10\");", file "d.nasl" "",
      file "e.nasl" "script_oid(\"1.2.3\");",
      file "f.nasl" "script_oid(\"1.3.6.1.4.1.25623.1.0.10\");"] }
    now := default }

/-- The second and the third script with an identifier are told that the first has it. -/
theorem oid_uses_counted_of_repeated :
    let path (name : String) : Path := ⟨"/", [name]⟩
    let root : Path := ⟨"/", []⟩
    let oid := "1.3.6.1.4.1.25623.1.0.10".toList
    let feed : Feed := ⟨root, ["a.nasl", "b.inc", "c.nasl", "d.nasl", "e.nasl", "f.nasl"].map path⟩
    withRepeatedOid.tree.Reaches root (scripts feed.files) ∧
    ∃ found, duplicateOid.run feed withRepeatedOid = .done found ∧
      found.filter (opens (takenStart oid)) =
        [taken withRepeatedOid.tree root oid (path "a.nasl") (path "c.nasl"),
          taken withRepeatedOid.tree root oid (path "a.nasl") (path "f.nasl")] := by
  intro path root oid feed
  have hreach : withRepeatedOid.tree.Reaches root (scripts feed.files) := by decide +kernel
  have huses : isAccepted oid = true ∧ usersOf withRepeatedOid.tree oid (scripts feed.files) =
      [path "a.nasl", path "c.nasl", path "f.nasl"] := by
    decide +kernel
  obtain ⟨found, hrun, -, -, -, htaken, -⟩ := oid_uses_counted hreach
  exact ⟨hreach, found, hrun, htaken oid _ _ huses.1 huses.2⟩

end NaslLint.Checks
