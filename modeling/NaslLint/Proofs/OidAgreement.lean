import NaslLint.Checks.DuplicateOid
import NaslLint.Proofs.Path
import NaslLint.Proofs.Repair
import NaslLint.Proofs.Pattern.First

/-!
# The two checks of object identifiers agree

One check judges the identifier of a script by its branch, the other one looks for identifiers that
are used twice and has a pattern of its own for what an identifier looks like. Whatever the first
one accepts lies in a branch below the numbers that all identifiers share, and is accepted by the
second one as well.

* `Checks.Branched` is what all ways to be accepted have in common;
* `Checks.branched_of_judgeOid` goes through these ways;
* `Checks.DuplicateOid.isSome_wellFormed` says that the pattern of the second check accepts such identifiers.
-/

namespace NaslLint

/-! ## Patterns that are anchored at the start of the text -/

namespace Pattern
variable {p q : Pattern} {t w : List Char} {m : Match} {g : List (String × List Char)}

theorem takes_textEnd : Takes textEnd [] [] g g := by
  apply takes_of_ends
  intro size s hs _
  rw [ends, Place.atTextEnd, hs]
  rfl

/-- At the start of a text, the anchor says nothing. -/
theorem matchStart?_textStart (q : Pattern) (t : List Char) :
    (seq textStart q).matchStart? t = q.matchStart? t := rfl

/-- An anchored pattern is found at the start of the text only. -/
theorem find?_textStart (q : Pattern) (t : List Char) :
    (seq textStart q).find? t = q.matchStart? t := by
  have hlater : ((List.range t.length).map Nat.succ).findSome? (fun n =>
      (seq textStart q).matchAt? t.length ((Place.ofText t).move n)) = none := by
    rw [List.findSome?_eq_none_iff]
    intro n hn
    obtain ⟨k, hk, rfl⟩ := List.mem_map.1 hn
    have hsplit : (t.take (k + 1)).length = k + 1 := by
      rw [List.length_take]
      have := List.mem_range.1 hk
      omega
    have hprev := Place.prev_move_append (t.take (k + 1)) (t.drop (k + 1)) none 0 []
    rw [List.take_append_drop, hsplit, Option.or_none] at hprev
    obtain ⟨c, hlast⟩ : ∃ c, (t.take (k + 1)).getLast? = some c := by
      rw [← Option.isSome_iff_exists, List.getLast?_isSome, ← List.length_pos_iff]
      omega
    rw [matchAt?_eq_none_iff, ends, ends, Place.atTextStart, Place.ofText, hprev, hlast]
    rfl
  have hstart : (seq textStart q).matchAt? t.length ((Place.ofText t).move 0) = q.matchStart? t := rfl
  rw [find?_eq_findSome?, List.range_succ_eq_map, List.findSome?_cons, hlater, hstart]
  cases q.matchStart? t <;> rfl

theorem spells_of_find?_textStart (h : (seq textStart q).find? t = some m) :
    ∃ x y, q.Spells x ∧ t = x ++ y := by
  rw [find?_textStart] at h
  obtain ⟨e, he, -⟩ := exists_mem_ends_of_matchAt? h
  exact ⟨_, _, spells_of_mem_ends he, (leads_of_mem_ends he).rest_eq⟩

theorem spells_of_find?_textStart_word
    (h : (seq textStart (seq (word w) q)).find? t = some m) :
    ∃ x y, q.Spells x ∧ t = w ++ (x ++ y) := by
  obtain ⟨_, y, ⟨_, x, rfl, hx, rfl⟩, rfl⟩ := spells_of_find?_textStart h
  exact ⟨x, y, hx, List.append_assoc _ _ _⟩

end Pattern

namespace Checks
variable {s : Subject} {t oid : List Char}

open Pattern

/-! ## What the first check accepts -/

def isOidChar (c : Char) : Bool :=
  Text.isAsciiDigit c || c == '.'

/-- An identifier is read from digits and dots. -/
theorem oid?_chars (h : oid? t = some oid) : ∀ c ∈ oid, isOidChar c = true := by
  obtain ⟨m, hm, rfl⟩ := Option.map_eq_some_iff.1 h
  obtain ⟨n, -, hm⟩ := exists_matchAt?_of_find? hm
  obtain ⟨e, he, rfl⟩ := exists_mem_ends_of_matchAt? hm
  obtain ⟨_, -, he⟩ := mem_ends_seq.1 he
  obtain ⟨_, -, he⟩ := mem_ends_seq.1 he
  obtain ⟨_, -, he⟩ := mem_ends_seq.1 he
  obtain ⟨_, -, he⟩ := mem_ends_seq.1 he
  obtain ⟨v, -, he⟩ := mem_ends_seq.1 he
  -- the value is read from `v` on, and what follows it fills no group
  obtain ⟨_, hvalue, he⟩ := mem_ends_seq.1 he
  obtain ⟨_, hinner, rfl⟩ := mem_ends_group.1 hvalue
  obtain ⟨u, hu, rfl⟩ := mem_ends_group.1 hinner
  have hgroups : e.groups = ("value", _) :: ("oid", v.spanTo u) :: u.groups :=
    groups_eq_of_mem_ends rfl he
  have hgroup : Match.group ⟨((Place.ofText t).move n).spanTo e, e.groups⟩ "oid" =
      (v.spanTo u).text := by
    rw [Match.group, Match.group?, hgroups]
    rfl
  rw [hgroup]
  exact (spells_of_mem_ends hu).2.2

/-- The identifier is a branch below the common numbers, with something behind it. -/
def Branched (oid : List Char) : Prop :=
  ∃ branch rest, Text.isAsciiDigit branch = true ∧ rest ≠ [] ∧
    oid = oidStem.toList ++ branch :: '.' :: rest

theorem branched_append {branch : Char} {start rest : List Char}
    (hbranch : Text.isAsciiDigit branch = true) (hstart : start = oidStem.toList ++ [branch, '.'])
    (hne : rest ≠ []) : Branched (start ++ rest) := by
  refine ⟨branch, rest, hbranch, hne, ?_⟩
  rw [hstart, List.append_assoc]
  rfl

theorem branched_of_vendorNumber? {number : String} (h : vendorNumber? oid = some number) :
    Branched oid := by
  obtain ⟨m, hm, -⟩ := Option.map_eq_some_iff.1 h
  obtain ⟨_, y, ⟨x, _, hx, -, rfl⟩, rfl⟩ := spells_of_find?_textStart_word hm
  have hne : x ≠ [] := List.length_pos_iff.1 hx.1
  exact branched_append (by decide : Text.isAsciiDigit '1' = true) (by decide) (by simp [hne])

theorem branched_of_rangeDigits? {digits : List Char} (h : rangeDigits? oid = some digits) :
    Branched oid := by
  obtain ⟨m, hm, -⟩ := Option.map_eq_some_iff.1 h
  obtain ⟨x, y, hx, rfl⟩ := spells_of_find?_textStart_word hm
  have hne : x ≠ [] := List.length_pos_iff.1 hx.1
  exact branched_append (by decide : Text.isAsciiDigit '0' = true) (by decide) (by simp [hne])

theorem branched_of_firefoxScheme (h : firefoxScheme.occursIn oid = true) : Branched oid := by
  obtain ⟨m, hm⟩ := Option.isSome_iff_exists.1 h
  obtain ⟨x, y, -, rfl⟩ := spells_of_find?_textStart_word hm
  have hstart : "1.3.6.1.4.1.25623.1.2.1.".toList =
      oidStem.toList ++ ['2', '.'] ++ ['1', '.'] := by
    decide
  rw [hstart, List.append_assoc]
  exact branched_append (by decide) rfl (by simp)

theorem branched_of_judgeVendorBranch (h : judgeVendorBranch t oid = []) : Branched oid := by
  unfold judgeVendorBranch at h
  split at h
  · cases h
  · split at h
    · cases h
    · rename_i number hnumber
      exact branched_of_vendorNumber? hnumber

theorem branched_of_judgeRange (h : judgeRange s oid = .done []) : Branched oid := by
  unfold judgeRange at h
  split at h
  · cases h
  · rename_i digits hdigits
    exact branched_of_rangeDigits? hdigits

theorem branched_of_judgeProductBranch (h : judgeProductBranch s t oid = .done []) :
    Branched oid := by
  unfold judgeProductBranch at h
  split at h
  · cases h
  · split at h
    · exact branched_of_judgeRange h
    · split at h
      · cases h
      · split at h
        · rename_i hscheme
          exact branched_of_firefoxScheme hscheme
        · cases h

/-- Whichever way an identifier is accepted, it lies in a branch. -/
theorem branched_of_judgeOid (h : judgeOid s t = .done []) :
    ∃ oid, oid? t = some oid ∧ Branched oid := by
  unfold judgeOid at h
  split at h
  · cases h
  · rename_i oid hoid
    refine ⟨oid, hoid, ?_⟩
    split at h
    · cases h
    · split at h
      · apply branched_of_judgeVendorBranch
        exact congrArg Outcome.results h
      · split at h
        · exact branched_of_judgeProductBranch h
        · exact branched_of_judgeRange h

/-! ## What the second check accepts -/

namespace DuplicateOid

theorem isSome_wellFormed (h : Branched oid) (hoid : ∀ c ∈ oid, isOidChar c = true) :
    (wellFormed.matchStart? oid).isSome = true := by
  obtain ⟨branch, rest, hbranch, hne, rfl⟩ := h
  have hrest : ∀ c ∈ rest, (Text.isDigit c || c == '.') = true := by
    intro c hc
    have := hoid c (by simp [hc])
    rw [isOidChar, Bool.or_eq_true] at this
    rw [Bool.or_eq_true]
    exact this.imp_left Text.isDigit_of_isAsciiDigit
  have hbranches : Takes (run .longest 1 none Text.isAsciiDigit) [branch]
      (".".toList ++ (rest ++ []) ++ []) [] [] := by
    apply takes_longest (List.forall_mem_singleton.2 hbranch) (by simp) (by simp)
    refine Or.inr fun d r hr => ?_
    obtain ⟨rfl, -⟩ := List.cons.inj hr
    decide
  have hmore : Takes (run .longest 1 none fun c => Text.isDigit c || c == '.') rest ([] ++ [])
      [] [] :=
    takes_longest hrest (List.length_pos_iff.2 hne) (by simp) (Or.inr (by simp))
  have hstem : Takes (word oidStem.toList) oidStem.toList
      ([branch] ++ (".".toList ++ (rest ++ [])) ++ []) [] [] :=
    takes_word
  obtain ⟨m, hm, -⟩ := (hstem.seq (hbranches.seq (takes_word.seq
    (hmore.seq takes_textEnd)))).matchStart?
  rw [List.append_nil] at hm
  exact Option.isSome_of_eq_some ((matchStart?_textStart _ _).trans hm)

/-- A script with a branched identifier can only be told that the identifier is taken. -/
theorem judge_of_branched {seen : List (List Char × Path)} {file relative : Path} {x : Finding}
    (hoid : oid? t = some oid) (h : Branched oid)
    (hx : (judge seen file relative t).1 = some x) :
    ∃ first : Path, x = complain file
      ("OID " ++ String.ofList oid ++ " already used by '" ++ first.toString ++ "'") := by
  have hwell := isSome_wellFormed h (oid?_chars hoid)
  rw [judge, hoid] at hx
  simp only [Option.isNone_eq_false_iff.2 hwell, Bool.false_eq_true, if_false] at hx
  split at hx
  · cases hx
  · rename_i first _
    exact ⟨first, (Option.some.inj hx).symm⟩

/-- Whatever a run finds is found about one of its scripts. -/
theorem exists_judge_of_mem_judgeAll {tree : FileTree} {root : Path} {files : List Path}
    {seen : List (List Char × Path)} {x : Finding}
    (h : x ∈ (judgeAll tree root seen files).results) :
    ∃ file ∈ files, ∃ seen relative t, file.suffix = ".nasl" ∧ tree.readText file = .ok t ∧
      (judge seen file relative t).1 = some x := by
  induction files generalizing seen with
  | nil => exact absurd h List.not_mem_nil
  | cons file files ih =>
      have hlater {seen} (h : x ∈ (judgeAll tree root seen files).results) :=
        (ih h).imp fun _ hp => hp.imp_left (List.mem_cons_of_mem file)
      rw [judgeAll] at h
      split at h
      · exact hlater h
      · rename_i hsuffix
        split at h
        · exact absurd h List.not_mem_nil
        · rename_i relative _
          split at h
          · exact absurd h List.not_mem_nil
          · rename_i t hread
            rcases List.mem_append.1 h with h | h
            · exact ⟨file, List.mem_cons_self, seen, relative, t, by simpa using hsuffix, hread,
                Option.mem_toList.1 h⟩
            · exact hlater h

theorem file_of_judge {seen : List (List Char × Path)} {file relative : Path} {x : Finding}
    (h : (judge seen file relative t).1 = some x) : x.file = some file.toString := by
  unfold judge at h
  split at h
  · rw [← Option.some.inj h]
    rfl
  · simp only at h
    split at h
    · rw [← Option.some.inj h]
      rfl
    · split at h
      · cases h
      · rw [← Option.some.inj h]
        rfl

end DuplicateOid

/-! ## Agreement -/

/-- A script without findings of the first check states an identifier that lies in a branch. -/
theorem branched_of_validOid {tree : FileTree} {root file : Path} {w : Surroundings}
    (hsuffix : file.suffix = ".nasl") (hread : tree.readText file = .ok t)
    (h : validOid.findings (.ofTree tree root file) w = .done []) :
    ∃ oid, oid? t = some oid ∧ Branched oid := by
  have hrun : validOid.run (.ofTree tree root file) w =
      judgeOid (.ofTree tree root file) t := by
    have hscript : (Subject.ofTree tree root file).file.isInclude = false := by
      change (file.suffix == ".inc") = false
      rw [hsuffix]
      rfl
    simp only [validOid, Subject.withText, text_ofTree hread, Subject.unlessInclude, hscript,
      Bool.false_eq_true, if_false]
  rw [FileCheck.findings, hrun] at h
  apply branched_of_judgeOid (s := .ofTree tree root file)
  have hresults := List.map_eq_nil_iff.1 (congrArg Outcome.results h)
  have hfault := congrArg Outcome.fault h
  cases hjudge : judgeOid (.ofTree tree root file) t with
  | mk results fault =>
      rw [hjudge] at hresults hfault
      obtain rfl : results = [] := hresults
      obtain rfl : fault = none := hfault
      rfl

/-- **The checks of identifiers agree.** About a script that the first check accepts, the second one
says neither that there is no identifier nor that it is invalid, among whatever other files. It can
say that the identifier is taken. -/
theorem accepted_by_duplicateOid {feed : Feed} {w : Surroundings} {file : Path}
    (hfiles : ∀ p ∈ feed.files, p.Denoted) (hfile : file ∈ feed.files)
    (hvalid : validOid.findings (.ofTree w.tree feed.root file) w = .done []) :
    ∀ x ∈ (duplicateOid.run feed w).results, x.file = some file.toString →
      ¬ "Could not find an OID".toList <+: x.message.toList ∧
      ¬ "Invalid OID".toList <+: x.message.toList ∧
      ∃ t oid, ∃ first : Path, w.tree.readText file = .ok t ∧ oid? t = some oid ∧
        x.message = "OID " ++ String.ofList oid ++ " already used by '" ++ first.toString ++ "'" := by
  intro x hx hname
  obtain ⟨p, hp, seen, relative, t, hsuffix, hread, hjudge⟩ :=
    DuplicateOid.exists_judge_of_mem_judgeAll hx
  -- different files are written differently, so the finding is about this one
  obtain rfl : p = file := by
    rw [DuplicateOid.file_of_judge hjudge] at hname
    exact Path.toString_inj (hfiles p hp) (hfiles file hfile) (Option.some.inj hname)
  obtain ⟨oid, hoid, hbranched⟩ := branched_of_validOid hsuffix hread hvalid
  obtain ⟨first, rfl⟩ := DuplicateOid.judge_of_branched hoid hbranched hjudge
  have hhead : (DuplicateOid.complain p ("OID " ++ String.ofList oid ++ " already used by '" ++
      first.toString ++ "'")).message.toList.head? = some 'O' := by
    simp [DuplicateOid.complain]
  refine ⟨?_, ?_, t, oid, first, hread, hoid, rfl⟩
  · rintro ⟨r, hr⟩
    rw [← hr] at hhead
    exact absurd hhead (by simp)
  · rintro ⟨r, hr⟩
    rw [← hr] at hhead
    exact absurd hhead (by simp)

def withSharedOid : Surroundings :=
  let script := Text.toLatin1 "script_oid(\"1.3.6.1.4.1.25623.1.0.100312\");\n".toList
  { tree := { entries := [(["a.nasl"], .file 0o644 script), (["b.nasl"], .file 0o644 script)] }, now := default }

/-- The second of two scripts with one valid identifier is told that the identifier is taken. -/
theorem accepted_by_duplicateOid_of_shared :
    let a : Path := ⟨"/", ["a.nasl"]⟩
    let b : Path := ⟨"/", ["b.nasl"]⟩
    let feed : Feed := ⟨⟨"/", []⟩, [a, b]⟩
    (∀ p ∈ feed.files, p.Denoted) ∧ b ∈ feed.files ∧
    validOid.findings (.ofTree withSharedOid.tree feed.root b) withSharedOid = .done [] ∧
    ∃ x ∈ (duplicateOid.run feed withSharedOid).results, x.file = some b.toString ∧
      ¬ "Invalid OID".toList <+: x.message.toList := by
  intro a b feed
  have hfiles : ∀ p ∈ feed.files, p.Denoted :=
    List.forall_mem_cons.2 ⟨⟨"/a.nasl", by decide⟩,
      List.forall_mem_singleton.2 ⟨"/b.nasl", by decide⟩⟩
  have hfile : b ∈ feed.files := by simp [feed]
  obtain ⟨hvalid, hnames⟩ :
      validOid.findings (.ofTree withSharedOid.tree feed.root b) withSharedOid = .done [] ∧
      (duplicateOid.run feed withSharedOid).results.map Finding.file = [some b.toString] := by
    decide +kernel
  obtain ⟨x, hx, hname⟩ := List.mem_map.1 (hnames ▸ List.mem_singleton_self _)
  exact ⟨hfiles, hfile, hvalid, x, hx, hname,
    (accepted_by_duplicateOid hfiles hfile hvalid x hx hname).2.1⟩

end Checks

end NaslLint
