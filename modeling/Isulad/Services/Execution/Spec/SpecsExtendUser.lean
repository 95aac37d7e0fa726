import Isulad.Framework.Fallible
import Isulad.Framework.Fresh
import Isulad.Services.Execution.Execute.ExecProcessSpec
import Isulad.Services.Execution.Spec.SpecsSecurity

/-!
# The user of a process (`get_user`, `specs_extend.c`)

`get_user` resolves a user string `user`, `user:group`, `:group` or `user:` against the
`/etc/passwd` and `/etc/group` of the container, then adds the `group_add` groups of the host
config. The files are read as the entries `fgetpwent_r` and `fgetgrent_r` return, one after
another; a file that cannot be opened is `none` and reads as no entries.

* `proc_by_fpasswd` takes the first passwd entry `b_user_found` accepts: with no user the one of
  uid `0`, for a user that `util_safe_llong` reads as a number the one with that uid, otherwise the
  one with that name. With none, the user must be such a number, in `[MINUID, MAXUID]`.
* `proc_by_fgroup` walks the group file once. With a group, the first entry
  `check_group_found` accepts sets the gid, else the group must be a number. Without one, the
  gid of every group that lists the matched user is added (`procByFgroup_eq`).
* `get_additional_groups` rewinds the group file and resolves each `group_add` entry by the first
  entry of the file that `group_matched` accepts, by name or by number, else as a number
  (`getAdditionalGroups_eq`).
* A gid is added only when it is not there yet, so the supplementary gids stay free of
  duplicates (`getUser_nodup_additionalGids`); every `group_add` entry adds its gid
  (`getUser_groupAdd_mem`), and without a group in the user string so does every group that
  lists the matched user (`getUser_member_gid`).

`util_safe_llong` is `strtoll` in base 0: a user or a group with a leading `0` is octal
(`strtol0_octal`) and one with `0x` hexadecimal (`strtol0_hex`), and a user or a group it reads
as a number in range is that uid or gid, whatever the files hold (`getUser_uid_of_number`,
`getUser_gid_of_number`). A `group_add` entry is matched by name even when it is a number, which
the group of the user string is not.
-/

namespace Isulad

namespace SpecsExtend

open Cutils ExecProcessSpec Fresh

/-! ## The entries of the two files -/

/-- `MINUID`, `MAXUID` and `DEFAULT_UID`. -/
def minUid : Int := 0
def maxUid : Int := 2 ^ 31 - 1
def defaultUid : Nat := 0

/-- The fields of a `struct passwd` that `get_user` reads. -/
structure Passwd where
  pwName : String
  pwUid : Nat
  pwGid : Nat
  deriving DecidableEq, Repr

/-- The fields of a `struct group` that `get_user` reads. -/
structure Group where
  grName : String
  grGid : Nat
  grMem : List String
  deriving DecidableEq, Repr

/-! ## `get_exec_user` -/

/-- A piece of the user string, `NULL` when it is empty. -/
def nonEmptyPiece (s : List Char) : Option String :=
  if s.isEmpty then none else some (String.ofList s)

/-- `parse_user_group(username)`: the user before the first `:` and the group after it. -/
def parseUserGroup : Option String → Option String × Option String
  | none => (none, none)
  | some username =>
    match username.toList.span fun c => c != ':' with
    | (user, []) => (nonEmptyPiece user, none)
    | (user, _ :: group) => (nonEmptyPiece user, nonEmptyPiece group)

/-- `b_user_found(user, pw)`. -/
def bUserFound (user : Option String) (pw : Passwd) : Bool :=
  match user with
  | none => pw.pwUid == defaultUid
  | some u =>
    -- a user `util_safe_llong` reads is compared as a uid only, any other as a name only
    match utilSafeLlong u.toList with
    | .ok nUser => (pw.pwUid : Int) == nUser
    | .error _ => u == pw.pwName

/-- The message of `uids_gids_range_err_log`. -/
def uidsGidsRangeErr : String := s!"uids and gids must be in range 0-{maxUid}"

/-- What `proc_by_fpasswd`, `proc_by_fgroup` and `get_one_additional_group` do with a name no
entry matched: it must be a number `util_safe_llong` reads, in `[MINUID, MAXUID]`; `notFound` is
the message when it is not a number. -/
def numericId (name notFound : String) : Except String Nat :=
  match utilSafeLlong name.toList with
  | .error _ => .error notFound
  | .ok n => if n < minUid ∨ n > maxUid then .error uidsGidsRangeErr else .ok n.toNat

/-- `proc_by_fpasswd`: the process user and the matched user name. The loop stops at the first
entry `b_user_found` accepts. -/
def procByFpasswd (fPasswd : Option (List Passwd)) (user : Option String)
    (puser : DefsProcessUser) : Except String (DefsProcessUser × Option String) :=
  match (fPasswd.getD []).find? (bUserFound user) with
  | some pw => .ok ({ puser with username := none, uid := pw.pwUid, gid := pw.pwGid }, some pw.pwName)
  | none =>
    match user with
    | none => .ok (puser, none)
    | some u => do
      let uid ← numericId u s!"Unable to find user '{u}': no matching entries in passwd file"
      pure ({ puser with uid }, none)

/-- `append_additional_gids(gid, &gids)`. -/
def appendAdditionalGids (gid : Nat) (gids : List Nat) : List Nat :=
  if gids.contains gid then gids else gids ++ [gid]

/-- Whether a group lists the user among its members. -/
def listsUser (username : String) (gr : Group) : Bool := gr.grMem.contains username

/-- `search_group_list(gr, username, puser)`. -/
def searchGroupList (gr : Group) (username : String) (puser : DefsProcessUser) : DefsProcessUser :=
  if listsUser username gr then
    { puser with additionalGids := appendAdditionalGids gr.grGid puser.additionalGids }
  else puser

/-- `check_group_found(group, gr)`. -/
def checkGroupFound (group : Option String) (gr : Group) : Bool :=
  match group with
  | none => false
  | some g =>
    match utilSafeLlong g.toList with
    | .ok nGrp => nGrp == (gr.grGid : Int)
    | .error _ => g == gr.grName

/-- One entry of the loop of `do_proc_by_froup`, on the process user and `groupcnt == 1`. -/
def doProcByFroupStep (group matchedUsername : Option String) (acc : DefsProcessUser × Bool)
    (gr : Group) : DefsProcessUser × Bool :=
  match group with
  | none =>
    -- `proc_by_fgroup` runs the loop without a group only for a matched user
    (searchGroupList gr (matchedUsername.getD "") acc.1, acc.2)
  | some _ =>
    if checkGroupFound group gr && !acc.2 then ({ acc.1 with gid := gr.grGid }, true) else acc

/-- `do_proc_by_froup`: the loop runs over the whole file, and only the first group found sets
the gid. -/
def doProcByFroup (fGroup : Option (List Group)) (group matchedUsername : Option String)
    (puser : DefsProcessUser) : DefsProcessUser × Bool :=
  (fGroup.getD []).foldl (doProcByFroupStep group matchedUsername) (puser, false)

/-- `proc_by_fgroup`. -/
def procByFgroup (fGroup : Option (List Group)) (group matchedUsername : Option String)
    (puser : DefsProcessUser) : Except String DefsProcessUser :=
  if group.isNone && matchedUsername.isNone then .ok puser
  else
    match group, doProcByFroup fGroup group matchedUsername puser with
    | none, (puser, _) => .ok puser
    | some _, (puser, true) => .ok puser
    | some g, (puser, false) => do
      let gid ← numericId g s!"Unable to find group '{g}': no matching entries in group file"
      pure { puser with gid }

/-- `get_exec_user(username, f_passwd, f_group, puser)`. -/
def getExecUser (username : Option String) (fPasswd : Option (List Passwd))
    (fGroup : Option (List Group)) (puser : DefsProcessUser) : Except String DefsProcessUser := do
  let (puser, matchedUsername) ← procByFpasswd fPasswd (parseUserGroup username).1 puser
  procByFgroup fGroup (parseUserGroup username).2 matchedUsername puser

/-! ## `get_additional_groups` -/

/-- `group_matched(group, gr)`: by name, or by number. -/
def groupMatched (group : String) (gr : Group) : Bool :=
  group == gr.grName ||
    match utilSafeLlong group.toList with
    | .ok nGid => nGid == (gr.grGid : Int)
    | .error _ => false

/-- `get_one_additional_group`: the first of `groups` that matches, or a number. -/
def getOneAdditionalGroup (additionalGroup : String) (groups : List Group)
    (puser : DefsProcessUser) : Except String DefsProcessUser := do
  let gid ← match groups.find? (groupMatched additionalGroup) with
    | some gr => pure gr.grGid
    | none => numericId additionalGroup s!"Unable to find group {additionalGroup}"
  pure { puser with additionalGids := appendAdditionalGids gid puser.additionalGids }

/-- The first loop of `get_additional_groups`: each entry of the group file, once for every
`group_add` entry it matches. -/
def additionalGroupEntries (additionalGroups : List String) (entries : List Group) : List Group :=
  entries.flatMap fun gr => (additionalGroups.filter fun g => groupMatched g gr).map fun _ => gr

/-- `get_additional_groups(additional_groups, f_group, puser)`. -/
def getAdditionalGroups (additionalGroups : List String) (fGroup : Option (List Group))
    (puser : DefsProcessUser) : Except String DefsProcessUser :=
  additionalGroups.foldlM
    (fun puser g => getOneAdditionalGroup g (additionalGroupEntries additionalGroups (fGroup.getD [])) puser)
    puser

/-- `get_user`, past `resolve_basefs` and `read_user_file`: `groupAdd` is `hc->group_add`. The
group file is rewound for the `group_add` groups, so both passes read it from its start. -/
def getUser (groupAdd : List String) (userstr : Option String) (fPasswd : Option (List Passwd))
    (fGroup : Option (List Group)) (puser : DefsProcessUser) : Except String DefsProcessUser := do
  let puser ← getExecUser userstr fPasswd fGroup puser
  if groupAdd.isEmpty then pure puser
  else if groupAdd.length > SpecsSecurity.listSizeMax then
    throw s!"Too many groups to add, the limit is {SpecsSecurity.listSizeMax}"
  else getAdditionalGroups groupAdd fGroup puser

/-! ## The group file loop of `proc_by_fgroup` -/

@[simp] lemma appendAdditionalGids_eq (gid : Nat) (gids : List Nat) :
    appendAdditionalGids gid gids = appendNew gids gid := by
  simp [appendAdditionalGids, appendNew]

attribute [local simp] parseUserGroup doProcByFroupStep in
/-- Once a group is found the loop changes nothing. -/
lemma foldl_doProcByFroupStep_found (g : String) (m : Option String) (entries : List Group)
    (puser : DefsProcessUser) :
    entries.foldl (doProcByFroupStep (some g) m) (puser, true) = (puser, true) := by
  induction entries with
  | nil => rfl
  | cons gr rest ih =>
    have hstep : doProcByFroupStep (some g) m (puser, true) gr = (puser, true) := by
      simp [doProcByFroupStep]
    rw [List.foldl_cons, hstep, ih]

/-- With a group, the loop sets the gid of the first entry `check_group_found` accepts. -/
lemma foldl_doProcByFroupStep_group (g : String) (m : Option String) (entries : List Group)
    (puser : DefsProcessUser) :
    entries.foldl (doProcByFroupStep (some g) m) (puser, false) =
      match entries.find? (checkGroupFound (some g)) with
      | some gr => ({ puser with gid := gr.grGid }, true)
      | none => (puser, false) := by
  induction entries with
  | nil => rfl
  | cons gr rest ih =>
    by_cases hg : checkGroupFound (some g) gr = true
    · have hstep : doProcByFroupStep (some g) m (puser, false) gr =
          ({ puser with gid := gr.grGid }, true) := by
        simp [doProcByFroupStep, hg]
      rw [List.foldl_cons, hstep, foldl_doProcByFroupStep_found, List.find?_cons_of_pos hg]
    · have hstep : doProcByFroupStep (some g) m (puser, false) gr = (puser, false) := by
        simp [doProcByFroupStep, hg]
      rw [List.foldl_cons, hstep, ih, List.find?_cons_of_neg hg]

/-- Without a group, the loop offers the gid of every group that lists the matched user. -/
lemma foldl_doProcByFroupStep_member (u : String) (entries : List Group)
    (acc : DefsProcessUser × Bool) :
    entries.foldl (doProcByFroupStep none (some u)) acc =
      ({ acc.1 with additionalGids :=
          ((entries.filter (listsUser u)).map Group.grGid).foldl appendNew acc.1.additionalGids },
        acc.2) := by
  induction entries generalizing acc with
  | nil => rfl
  | cons gr rest ih =>
    rw [List.foldl_cons, ih]
    by_cases hl : listsUser u gr = true
    · simp [doProcByFroupStep, searchGroupList, hl, List.filter_cons_of_pos hl]
    · simp [doProcByFroupStep, searchGroupList, hl, List.filter_cons_of_neg hl]

/-- What `proc_by_fgroup` computes: with a group, the gid of the first entry `check_group_found`
accepts, else the number; without one, the gids of the groups that list the matched user,
appended where they are new. -/
def primaryGroup (entries : List Group) (group matchedUsername : Option String)
    (puser : DefsProcessUser) : Except String DefsProcessUser :=
  match group, matchedUsername with
  | some g, _ =>
    match entries.find? (checkGroupFound (some g)) with
    | some gr => .ok { puser with gid := gr.grGid }
    | none => do
      let gid ← numericId g s!"Unable to find group '{g}': no matching entries in group file"
      pure { puser with gid }
  | none, some u =>
    .ok { puser with
      additionalGids := puser.additionalGids ++
        fresh id puser.additionalGids ((entries.filter (listsUser u)).map Group.grGid) }
  | none, none => .ok puser

attribute [local simp] primaryGroup getOneAdditionalGroup in
theorem procByFgroup_eq (fGroup : Option (List Group)) (group matchedUsername : Option String)
    (puser : DefsProcessUser) :
    procByFgroup fGroup group matchedUsername puser =
      primaryGroup (fGroup.getD []) group matchedUsername puser := by
  unfold procByFgroup doProcByFroup
  cases group with
  | none =>
    cases matchedUsername with
    | none => rfl
    | some u =>
      simp only [Option.isNone_none, Option.isNone_some, Bool.and_false, Bool.false_eq_true,
        if_false, foldl_doProcByFroupStep_member, primaryGroup, foldl_appendNew]
  | some g =>
    simp only [Option.isNone_some, Bool.false_and, Bool.false_eq_true, if_false,
      foldl_doProcByFroupStep_group, primaryGroup]
    cases (fGroup.getD []).find? (checkGroupFound (some g)) <;> rfl

/-! ## The two loops of `get_additional_groups` -/

/-- The first loop keeps, for a `group_add` entry, the first group of the file it matches. -/
lemma find?_additionalGroupEntries {ags : List String} {g : String} (hg : g ∈ ags)
    (entries : List Group) :
    (additionalGroupEntries ags entries).find? (groupMatched g) = entries.find? (groupMatched g) := by
  induction entries with
  | nil => rfl
  | cons gr rest ih =>
    -- `gr` comes first, once for each `group_add` entry it matches
    have hcons : additionalGroupEntries ags (gr :: rest) =
        ((ags.filter fun a => groupMatched a gr).map fun _ => gr) ++
          additionalGroupEntries ags rest :=
      List.flatMap_cons
    rw [hcons, List.find?_append]
    by_cases hm : groupMatched g gr = true
    · obtain ⟨a, as, has⟩ : ∃ a as, ags.filter (fun a => groupMatched a gr) = a :: as :=
        List.exists_cons_of_ne_nil (List.ne_nil_of_mem (List.mem_filter.2 ⟨hg, hm⟩))
      rw [has, List.map_cons, List.find?_cons_of_pos hm, List.find?_cons_of_pos hm]
      rfl
    · have hnone : ((ags.filter fun a => groupMatched a gr).map fun _ => gr).find? (groupMatched g) =
          none :=
        List.find?_eq_none.2 fun x hx => by
          obtain ⟨_, -, rfl⟩ := List.mem_map.1 hx
          exact hm
      rw [hnone, Option.none_or, ih, List.find?_cons_of_neg hm]

/-- The gid a `group_add` entry resolves to: the first entry of the group file `group_matched`
accepts, or the number. -/
def resolveAdditionalGroup (entries : List Group) (g : String) : Except String Nat :=
  match entries.find? (groupMatched g) with
  | some gr => .ok gr.grGid
  | none => numericId g s!"Unable to find group {g}"

lemma getOneAdditionalGroup_eq {ags : List String} {g : String} (hg : g ∈ ags)
    (entries : List Group) (puser : DefsProcessUser) :
    getOneAdditionalGroup g (additionalGroupEntries ags entries) puser =
      (resolveAdditionalGroup entries g).map fun gid =>
        { puser with additionalGids := appendNew puser.additionalGids gid } := by
  unfold getOneAdditionalGroup resolveAdditionalGroup
  rw [find?_additionalGroupEntries hg]
  cases entries.find? (groupMatched g) with
  | some gr => simp [Except.map]
  | none => cases numericId g _ <;> simp [Except.map]

/-- The second loop, over some of the `group_add` entries. -/
lemma foldlM_getOneAdditionalGroup {ags : List String} (entries : List Group) :
    ∀ {xs : List String}, (∀ g ∈ xs, g ∈ ags) → ∀ puser : DefsProcessUser,
      xs.foldlM (fun p g => getOneAdditionalGroup g (additionalGroupEntries ags entries) p) puser =
        (xs.mapM (resolveAdditionalGroup entries)).map fun gids =>
          { puser with additionalGids := gids.foldl appendNew puser.additionalGids }
  | [], _, _ => rfl
  | g :: rest, hsub, puser => by
    rw [List.foldlM_cons, getOneAdditionalGroup_eq (hsub g List.mem_cons_self), List.mapM_cons]
    cases resolveAdditionalGroup entries g with
    | error e => rfl
    | ok gid =>
      have ih := foldlM_getOneAdditionalGroup entries (fun x hx => hsub x (List.mem_cons_of_mem _ hx))
        { puser with additionalGids := appendNew puser.additionalGids gid }
      simp only [Except.map, bind, Except.bind, ih]
      cases rest.mapM (resolveAdditionalGroup entries) <;> rfl

/-- `get_additional_groups` resolves every `group_add` entry against the whole group file and
appends the gids that are new; it fails at the first entry that resolves to nothing. -/
theorem getAdditionalGroups_eq (ags : List String) (fGroup : Option (List Group))
    (puser : DefsProcessUser) :
    getAdditionalGroups ags fGroup puser =
      (ags.mapM (resolveAdditionalGroup (fGroup.getD []))).map fun gids =>
        { puser with additionalGids := puser.additionalGids ++ fresh id puser.additionalGids gids } := by
  unfold getAdditionalGroups
  rw [foldlM_getOneAdditionalGroup _ (fun _ h => h)]
  simp only [foldl_appendNew]

/-! ## What `get_user` gives -/

section GetUser

variable {groupAdd : List String} {userstr : Option String} {fPasswd : Option (List Passwd)}
  {fGroup : Option (List Group)} {puser p : DefsProcessUser}

attribute [local simp] procByFpasswd in
/-- The passwd pass leaves the supplementary gids as they were. -/
lemma procByFpasswd_additionalGids {user : Option String} {q : DefsProcessUser}
    {m : Option String} (h : procByFpasswd fPasswd user puser = .ok (q, m)) :
    q.additionalGids = puser.additionalGids := by
  unfold procByFpasswd at h
  split at h
  · cases h
    rfl
  · split at h
    · cases h
      rfl
    · obtain ⟨uid, -, huser⟩ := Fallible.bind_eq_ok.1 h
      cases Fallible.pure_eq_ok.1 huser
      rfl

/-- The group pass keeps the user name and the uid, and only appends gids that are new. -/
lemma primaryGroup_frame {entries : List Group} {group m : Option String}
    {q r : DefsProcessUser} (h : primaryGroup entries group m q = .ok r) :
    r.username = q.username ∧ r.uid = q.uid ∧
      ∃ xs, r.additionalGids = q.additionalGids ++ fresh id q.additionalGids xs := by
  unfold primaryGroup at h
  split at h
  · -- a group sets the gid and nothing else
    split at h
    · cases h
      exact ⟨rfl, rfl, [], by simp [fresh]⟩
    · obtain ⟨gid, -, hgid⟩ := Fallible.bind_eq_ok.1 h
      cases Fallible.pure_eq_ok.1 hgid
      exact ⟨rfl, rfl, [], by simp [fresh]⟩
  · cases h
    exact ⟨rfl, rfl, _, rfl⟩
  · cases h
    exact ⟨rfl, rfl, [], by simp [fresh]⟩

/-- A successful `get_user` in its three passes: the passwd file, the group file for the group
of the user string or the groups of the matched user, and the group file again for the
`group_add` groups. -/
lemma getUser_stages (h : getUser groupAdd userstr fPasswd fGroup puser = .ok p) :
    ∃ q m r gids, procByFpasswd fPasswd (parseUserGroup userstr).1 puser = .ok (q, m) ∧
      primaryGroup (fGroup.getD []) (parseUserGroup userstr).2 m q = .ok r ∧
      groupAdd.mapM (resolveAdditionalGroup (fGroup.getD [])) = .ok gids ∧
      p = { r with additionalGids := r.additionalGids ++ fresh id r.additionalGids gids } := by
  obtain ⟨r, hexec, hadd⟩ := Fallible.bind_eq_ok.1 h
  obtain ⟨⟨q, m⟩, hq, hr⟩ := Fallible.bind_eq_ok.1 hexec
  dsimp only at hr
  rw [procByFgroup_eq] at hr
  refine ⟨q, m, r, ?_⟩
  by_cases hempty : groupAdd.isEmpty = true
  · -- no `group_add`: the process user is the one of the first two passes
    rw [if_pos hempty] at hadd
    cases Fallible.pure_eq_ok.1 hadd
    refine ⟨[], hq, hr, by rw [List.isEmpty_iff.1 hempty]; rfl, by simp [fresh]⟩
  · rw [if_neg hempty] at hadd
    split at hadd
    · exact absurd hadd Fallible.throw_ne_ok
    · rw [getAdditionalGroups_eq] at hadd
      obtain ⟨gids, hgids, rfl⟩ := Fallible.map_eq_ok.1 hadd
      exact ⟨gids, hq, hr, hgids, rfl⟩

/-- The supplementary gids stay free of duplicates: `get_user` appends a gid only when it is not
there yet. -/
theorem getUser_nodup_additionalGids (h : getUser groupAdd userstr fPasswd fGroup puser = .ok p)
    (hnd : puser.additionalGids.Nodup) : p.additionalGids.Nodup := by
  obtain ⟨q, m, r, gids, hq, hr, -, rfl⟩ := getUser_stages h
  obtain ⟨-, -, xs, hxs⟩ := primaryGroup_frame hr
  have hr' : r.additionalGids.Nodup := by
    rw [hxs, ← foldl_appendNew, procByFpasswd_additionalGids hq]
    exact nodup_foldl_appendNew hnd xs
  show (r.additionalGids ++ fresh id r.additionalGids gids).Nodup
  rw [← foldl_appendNew]
  exact nodup_foldl_appendNew hr' gids

/-- Every `group_add` entry resolves, and its gid is among the supplementary gids. -/
theorem getUser_groupAdd_mem (h : getUser groupAdd userstr fPasswd fGroup puser = .ok p)
    {g : String} (hg : g ∈ groupAdd) :
    ∃ gid, resolveAdditionalGroup (fGroup.getD []) g = .ok gid ∧ gid ∈ p.additionalGids := by
  obtain ⟨q, m, r, gids, -, -, hgids, rfl⟩ := getUser_stages h
  obtain ⟨gid, hmem, hres⟩ := Fallible.exists_of_mapM_eq_ok hgids g hg
  refine ⟨gid, hres, ?_⟩
  show gid ∈ r.additionalGids ++ fresh id r.additionalGids gids
  rw [← foldl_appendNew]
  exact mem_foldl_appendNew.2 (Or.inr hmem)

/-- Without a group in the user string, every group that lists the matched user adds its gid. -/
theorem getUser_member_gid (h : getUser groupAdd userstr fPasswd fGroup puser = .ok p)
    (hgroup : (parseUserGroup userstr).2 = none) {pw : Passwd}
    (hpw : (fPasswd.getD []).find? (bUserFound (parseUserGroup userstr).1) = some pw)
    {gr : Group} (hgr : gr ∈ fGroup.getD []) (hl : listsUser pw.pwName gr = true) :
    gr.grGid ∈ p.additionalGids := by
  obtain ⟨q, m, r, gids, hq, hr, -, rfl⟩ := getUser_stages h
  -- the passwd pass matched `pw`, so the group pass walks the groups of its name
  have hm : m = some pw.pwName := by
    simp only [procByFpasswd, hpw] at hq
    cases hq
    rfl
  rw [hgroup, hm] at hr
  cases hr
  show gr.grGid ∈ _ ++ fresh id _ gids
  rw [← foldl_appendNew, ← foldl_appendNew]
  refine mem_foldl_appendNew.2 (Or.inl (mem_foldl_appendNew.2 (Or.inr ?_)))
  exact List.mem_map.2 ⟨gr, List.mem_filter.2 ⟨hgr, hl⟩, rfl⟩

/-- A name `strtoll` reads whole as an id in range: `util_safe_llong` returns it, and so does the
fallback of the three passes. -/
lemma utilSafeLlong_of_id {name : String} {v : Int}
    (hread : Verify.strtol0 name.toList = (some v, [])) (hmin : minUid ≤ v) (hmax : v ≤ maxUid) :
    utilSafeLlong name.toList = .ok v :=
  utilSafeLlong_of_strtol0 hread (le_trans (by decide) hmin) (le_trans hmax (by decide))

lemma numericId_of_id {name : String} {v : Int}
    (hread : Verify.strtol0 name.toList = (some v, [])) (hmin : minUid ≤ v) (hmax : v ≤ maxUid)
    (notFound : String) : numericId name notFound = .ok v.toNat := by
  have hrange : ¬ (v < minUid ∨ v > maxUid) := by omega
  unfold numericId
  rw [utilSafeLlong_of_id hread hmin hmax]
  exact if_neg hrange

/-- A user that `strtoll` reads whole as a uid in range gives that uid, whatever the passwd file
holds: the first entry with that uid if there is one, the number otherwise. -/
theorem getUser_uid_of_number (h : getUser groupAdd userstr fPasswd fGroup puser = .ok p)
    {u : String} (huser : (parseUserGroup userstr).1 = some u) {v : Int}
    (hread : Verify.strtol0 u.toList = (some v, [])) (hmin : minUid ≤ v) (hmax : v ≤ maxUid) :
    (p.uid : Int) = v := by
  obtain ⟨q, m, r, gids, hq, hr, -, rfl⟩ := getUser_stages h
  -- an entry is found by its uid alone
  have hfound : ∀ pw, bUserFound (some u) pw = ((pw.pwUid : Int) == v) := by
    intro pw
    unfold bUserFound
    dsimp only
    rw [utilSafeLlong_of_id hread hmin hmax]
  rw [(primaryGroup_frame hr).2.1]
  rw [huser] at hq
  unfold procByFpasswd at hq
  split at hq
  · rename_i pw hpw
    cases hq
    have hmatch := List.find?_some hpw
    rw [hfound] at hmatch
    exact beq_iff_eq.1 hmatch
  · obtain ⟨uid, huid, hq⟩ := Fallible.bind_eq_ok.1 hq
    cases Fallible.pure_eq_ok.1 hq
    rw [numericId_of_id hread hmin hmax] at huid
    cases huid
    exact Int.toNat_of_nonneg hmin

/-- Likewise a group that `strtoll` reads whole as a gid in range gives that gid, whatever the
group file holds. -/
theorem getUser_gid_of_number (h : getUser groupAdd userstr fPasswd fGroup puser = .ok p)
    {g : String} (hgroup : (parseUserGroup userstr).2 = some g) {v : Int}
    (hread : Verify.strtol0 g.toList = (some v, [])) (hmin : minUid ≤ v) (hmax : v ≤ maxUid) :
    (p.gid : Int) = v := by
  obtain ⟨q, m, r, gids, -, hr, -, rfl⟩ := getUser_stages h
  -- a group is found by its gid alone
  have hfound : ∀ gr, checkGroupFound (some g) gr = (v == (gr.grGid : Int)) := by
    intro gr
    unfold checkGroupFound
    dsimp only
    rw [utilSafeLlong_of_id hread hmin hmax]
  show (r.gid : Int) = v
  rw [hgroup] at hr
  unfold primaryGroup at hr
  dsimp only at hr
  split at hr
  · rename_i gr hgr
    cases hr
    have hmatch := List.find?_some hgr
    rw [hfound] at hmatch
    exact (beq_iff_eq.1 hmatch).symm
  · obtain ⟨gid, hgid, hr⟩ := Fallible.bind_eq_ok.1 hr
    cases Fallible.pure_eq_ok.1 hr
    rw [numericId_of_id hread hmin hmax] at hgid
    cases hgid
    exact Int.toNat_of_nonneg hmin

/-- `-u 010` selects the entry of uid 8, not 10, and `-u 0x3e8` gives uid 1000; the `group_add`
entry `100` resolves by name to the gid 5 where the group of `-u :100` is the gid 100; and an
empty user with no entry of uid 0 keeps the uid it had. -/
theorem getUser_reads_base0_and_matches_group_add_by_name :
    (getUser [] (some "010") (some [⟨"root", 0, 0⟩, ⟨"mail", 8, 12⟩, ⟨"uucp", 10, 14⟩]) none
        ⟨none, 0, 0, []⟩).toOption.map DefsProcessUser.uid = some 8 ∧
    (getUser [] (some "0x3e8") (some [⟨"root", 0, 0⟩]) none
        ⟨none, 0, 0, []⟩).toOption.map DefsProcessUser.uid = some 1000 ∧
    getUser ["100"] (some ":100") none (some [⟨"100", 5, []⟩]) ⟨none, 0, 0, []⟩ =
      .ok ⟨none, 0, 100, [5]⟩ ∧
    getUser [] (some "") (some [⟨"bin", 1, 1⟩]) none ⟨none, 7, 7, []⟩ = .ok ⟨none, 7, 7, []⟩ := by
  decide

end GetUser

end SpecsExtend

end Isulad
