import Mathlib.Data.List.Basic

/-!
# Specialising a Docker seccomp profile (`specs_security.c`)

`trans_docker_seccomp_to_oci_format(P, B)` turns a Docker-format profile into the OCI one:
the default action, the architectures of `P`'s `archMap` (each with its sub-architectures),
and the rules of `P` that pass `meet_filtering_rules`, copied in order with their names,
action and arguments (`transDockerSeccompToOciFormat_eq`). Both the default profile
(`merge_default_seccomp_spec`) and a user's (`merge_seccomp`) go through it.

Docker keeps a rule when its `includes` arches are empty or name the daemon's architecture,
its `includes` caps are all in the bounding set, its `excludes` arches do not name the daemon's
architecture and no `excludes` cap is in the set (`dockerRuleApplies`). `meet_filtering_rules`
never looks at the daemon's architecture: an arch of a rule counts when it is one of `P`'s own
`archMap` entries (`isArchInSeccomp_iff`), and the `includes` caps are any-of
(`meetInclude`). With Docker's stock profile, whose `archMap` lists `s390x`, that drops the
x86 `clone` rule and keeps the s390 one on an amd64 host
(`transDockerSeccompToOciFormat_keeps_s390_clone`).

# Capabilities

`merge_caps(spec, adds, drops)` rewrites the bounding set with `tweak_capabilities`: all
capabilities when `adds` holds `all`, else the set as it is; then nothing when `drops` holds
`all`, else what `drops` does not name; then what `adds` names. So a capability it leaves is
one `adds` names, or one `drops` neither names nor sweeps with `all`
(`tweakCapabilities_respects`). `merge_all_specs` calls it with the request's `cap_add` and
`cap_drop`, and for a system container calls it again with the system capabilities that
`cap_drop` does not name literally (`get_adds_cap_for_system_container`), which `all` never
does: `--system-container --cap-drop all` ends with all fifteen system capabilities
(`mergeAllSpecsCaps_system_regrants_dropped`).

Names are compared up to case throughout, and up to case `merge_caps` computes Docker's set
algebra: it fails exactly on an unknown name other than `all` or on more than `LIST_SIZE_MAX`
names (`mergeCaps_eq_none_iff`), and otherwise leaves a name exactly when the set algebra does
(`mergeCaps_stringsInSlice`). An added name is kept in the user's spelling, though, after
`CAP_` (`mergeCaps_keeps_spelling_and_limit`).
-/

namespace Isulad

namespace SpecsSecurity

/-! ## Profiles -/

/-- An `archMap` entry of `docker_seccomp`. -/
structure DockerSeccompArchMapElement where
  architecture : String
  subArchitectures : List String
  deriving DecidableEq, Repr

/-- The `includes` or `excludes` of a rule; a `NULL` array is `none`. -/
structure DockerSeccompSyscallsFilter where
  arches : Option (List String)
  caps : Option (List String)
  deriving DecidableEq, Repr

/-- An argument condition of a rule (`docker_seccomp_syscalls_element_args_element`). -/
structure DefsSyscallArg where
  index : Nat
  value : Nat
  valueTwo : Nat
  op : String
  deriving DecidableEq, Repr

/-- A rule of `docker_seccomp`; a `NULL` `includes` or `excludes` is `none`. -/
structure DockerSeccompSyscallsElement where
  names : List String
  action : String
  args : List DefsSyscallArg
  includes : Option DockerSeccompSyscallsFilter
  excludes : Option DockerSeccompSyscallsFilter
  deriving DecidableEq, Repr

/-- `docker_seccomp`. -/
structure DockerSeccomp where
  defaultAction : String
  archMap : List DockerSeccompArchMapElement
  syscalls : List DockerSeccompSyscallsElement
  deriving DecidableEq, Repr

/-- `defs_syscall`, an OCI rule. -/
structure DefsSyscall where
  names : List String
  action : String
  args : List DefsSyscallArg
  deriving DecidableEq, Repr

/-- `oci_runtime_config_linux_seccomp`. -/
structure OciRuntimeConfigLinuxSeccomp where
  defaultAction : String
  architectures : List String
  syscalls : List DefsSyscall
  deriving DecidableEq, Repr

/-! ## The filter -/

/-- The table of `seccomp_trans_arch_for_docker`. -/
def archMapTable : List (String × String) :=
  [("SCMP_ARCH_X86", "x86"), ("SCMP_ARCH_X86_64", "amd64"), ("SCMP_ARCH_X32", "x32"),
    ("SCMP_ARCH_ARM", "arm"), ("SCMP_ARCH_AARCH64", "arm64"), ("SCMP_ARCH_MIPS", "mips"),
    ("SCMP_ARCH_MIPS64", "mips64"), ("SCMP_ARCH_MIPS64N32", "mips64n32"),
    ("SCMP_ARCH_MIPSEL", "mipsel"), ("SCMP_ARCH_MIPSEL64", "mipsel64"),
    ("SCMP_ARCH_MIPSEL64N32", "mipsel64n32"), ("SCMP_ARCH_PPC", "ppc"),
    ("SCMP_ARCH_PPC64", "ppc64"), ("SCMP_ARCH_PPC64LE", "ppc64le"), ("SCMP_ARCH_S390", "s390"),
    ("SCMP_ARCH_S390X", "s390x"), ("SCMP_ARCH_PARISC", "parisc"),
    ("SCMP_ARCH_PARISC64", "parisc64"), ("SCMP_ARCH_ALL", "all")]

/-- `seccomp_trans_arch_for_docker`: the Docker name of a libseccomp architecture. -/
def seccompTransArchForDocker (arch : String) : Option String :=
  (archMapTable.find? fun e => e.1 = arch).map Prod.snd

/-- The inner loop of `is_arch_in_seccomp` over the sub-architectures of one entry; `none`
is its `return false` on an architecture the table does not know. -/
def isArchInSubArchitectures (arch : String) : List String → Option Bool
  | [] => some false
  | sub :: rest =>
    match seccompTransArchForDocker sub with
    | none => none
    | some d => if d = arch then some true else isArchInSubArchitectures arch rest

/-- `is_arch_in_seccomp(seccomp, arch)`: whether `arch` is one of the profile's own
architectures, and `false` as soon as the profile names one the table does not know. -/
def isArchInSeccomp (archMap : List DockerSeccompArchMapElement) (arch : String) : Bool :=
  match archMap with
  | [] => false
  | e :: rest =>
    match seccompTransArchForDocker e.architecture with
    | none => false
    | some d =>
      if d = arch then true
      else
        match isArchInSubArchitectures arch e.subArchitectures with
        | none => false
        | some true => true
        | some false => isArchInSeccomp rest arch

/-- `strcasecmp(a, b) == 0`. -/
def strcaseEq (a b : String) : Bool :=
  a.toList.map Char.toLower == b.toList.map Char.toLower

/-- `is_cap_in_seccomp`: the capability is in the bounding set (`false` without one). -/
def isCapInSeccomp (capabilities : Option (List String)) (cap : String) : Bool :=
  match capabilities with
  | none => false
  | some bounding => bounding.any fun b => strcaseEq b cap

/-- `meet_include`: the arch and the cap flags. -/
def meetInclude (seccomp : DockerSeccomp) (syscall : DockerSeccompSyscallsElement)
    (capabilities : Option (List String)) : Bool × Bool :=
  match syscall.includes with
  | none => (true, true)
  | some inc =>
    (match inc.arches with
      | none => true
      | some arches => arches.any fun a => isArchInSeccomp seccomp.archMap a,
     match inc.caps with
      | none => true
      | some caps => caps.any fun c => isCapInSeccomp capabilities c)

/-- `meet_exclude`: the arch and the cap flags. -/
def meetExclude (seccomp : DockerSeccomp) (syscall : DockerSeccompSyscallsElement)
    (capabilities : Option (List String)) : Bool × Bool :=
  match syscall.excludes with
  | none => (true, true)
  | some exc =>
    (match exc.arches with
      | none => true
      | some arches => !arches.any fun a => isArchInSeccomp seccomp.archMap a,
     match exc.caps with
      | none => true
      | some caps => !caps.any fun c => isCapInSeccomp capabilities c)

/-- `meet_filtering_rules`. -/
def meetFilteringRules (seccomp : DockerSeccomp) (syscall : DockerSeccompSyscallsElement)
    (capabilities : Option (List String)) : Bool :=
  let inc := meetInclude seccomp syscall capabilities
  let exc := meetExclude seccomp syscall capabilities
  inc.1 && inc.2 && exc.1 && exc.2

/-! ## The translation -/

/-- `dup_architectures_to_oci_spec`: every architecture followed by its sub-architectures. -/
def dupArchitecturesToOciSpec (archMap : List DockerSeccompArchMapElement) : List String :=
  archMap.flatMap fun e => e.architecture :: e.subArchitectures

/-- The copy of one rule `dup_syscall_to_oci_spec` makes. -/
def dupSyscall (syscall : DockerSeccompSyscallsElement) : DefsSyscall :=
  ⟨syscall.names, syscall.action, syscall.args⟩

/-- The loop of `dup_syscall_to_oci_spec`: the rules that pass the filter, copied. -/
def keptSyscalls (seccomp : DockerSeccomp) (capabilities : Option (List String)) :
    List DefsSyscall :=
  seccomp.syscalls.filterMap fun s =>
    if meetFilteringRules seccomp s capabilities then some (dupSyscall s) else none

/-- `dup_syscall_to_oci_spec`. The array is shrunk to the rules kept with `mem_realloc`, which
fails on a size of `0`: a profile with rules none of which is kept is an error. -/
def dupSyscallToOciSpec (seccomp : DockerSeccomp) (capabilities : Option (List String)) :
    Option (List DefsSyscall) :=
  if seccomp.syscalls = [] then some []
  else if keptSyscalls seccomp capabilities = [] then none
  else some (keptSyscalls seccomp capabilities)

/-- `trans_docker_seccomp_to_oci_format`; `none` is its `NULL`. -/
def transDockerSeccompToOciFormat (seccomp : DockerSeccomp) (capabilities : Option (List String)) :
    Option OciRuntimeConfigLinuxSeccomp :=
  (dupSyscallToOciSpec seccomp capabilities).map fun syscalls =>
    ⟨seccomp.defaultAction, dupArchitecturesToOciSpec seccomp.archMap, syscalls⟩

/-! ## What the translation keeps -/

lemma keptSyscalls_eq (seccomp : DockerSeccomp) (capabilities : Option (List String)) :
    keptSyscalls seccomp capabilities =
      (seccomp.syscalls.filter fun s => meetFilteringRules seccomp s capabilities).map
        dupSyscall := by
  rw [keptSyscalls, ← List.filterMap_eq_map, List.filterMap_filter]
  rfl

/-- The translation is the profile's default action and architectures and its rules that
pass `meet_filtering_rules`, copied in order. -/
theorem transDockerSeccompToOciFormat_eq {seccomp : DockerSeccomp}
    {capabilities : Option (List String)} {oci : OciRuntimeConfigLinuxSeccomp}
    (h : transDockerSeccompToOciFormat seccomp capabilities = some oci) :
    oci = ⟨seccomp.defaultAction, dupArchitecturesToOciSpec seccomp.archMap,
      (seccomp.syscalls.filter fun s => meetFilteringRules seccomp s capabilities).map
        dupSyscall⟩ := by
  unfold transDockerSeccompToOciFormat dupSyscallToOciSpec at h
  split at h
  · -- no rules at all
    rename_i hs
    simp only [Option.map_some, Option.some.injEq] at h
    simp [← h, hs]
  · split at h
    · simp at h
    · simp only [Option.map_some, Option.some.injEq] at h
      rw [← h, keptSyscalls_eq]

/-! ## Against Docker's rule -/

/-- Docker's rule for keeping a rule of a profile on a daemon of architecture `arch` with the
bounding set `caps`: the statement `meet_filtering_rules` is compared with. -/
def dockerRuleApplies (arch : String) (caps : List String) (s : DockerSeccompSyscallsElement) :
    Bool :=
  let inc := s.includes.getD ⟨none, none⟩
  let exc := s.excludes.getD ⟨none, none⟩
  ((inc.arches.getD []).isEmpty || (inc.arches.getD []).contains arch) &&
    (inc.caps.getD []).all caps.contains &&
    !(exc.arches.getD []).contains arch &&
    !(exc.caps.getD []).any caps.contains

attribute [local simp] isArchInSubArchitectures in
/-- The inner loop, on sub-architectures the table knows, asks whether one of them is
`arch`. -/
lemma isArchInSubArchitectures_eq {arch : String} {subs : List String}
    (hknown : ∀ x ∈ subs, (seccompTransArchForDocker x).isSome) :
    isArchInSubArchitectures arch subs =
      some (decide (∃ x ∈ subs, seccompTransArchForDocker x = some arch)) := by
  induction subs with
  | nil => simp [isArchInSubArchitectures]
  | cons x rest ih =>
    obtain ⟨d, hd⟩ := Option.isSome_iff_exists.1 (hknown x List.mem_cons_self)
    rw [isArchInSubArchitectures, hd, ih fun y hy => hknown y (List.mem_cons_of_mem _ hy)]
    by_cases hda : d = arch
    · simp [hda, hd]
    · simp [hda, hd]

attribute [local simp] dupArchitecturesToOciSpec in
lemma mem_dupArchitecturesToOciSpec_cons {x : String} {e : DockerSeccompArchMapElement}
    {rest : List DockerSeccompArchMapElement} :
    x ∈ dupArchitecturesToOciSpec (e :: rest) ↔
      x = e.architecture ∨ x ∈ e.subArchitectures ∨ x ∈ dupArchitecturesToOciSpec rest := by
  simp [dupArchitecturesToOciSpec]

/-- On a profile whose architectures the table all knows, `is_arch_in_seccomp` asks whether
`arch` is one of the profile's own architectures; the daemon's plays no part. -/
theorem isArchInSeccomp_iff {archMap : List DockerSeccompArchMapElement} {arch : String}
    (hknown : ∀ x ∈ dupArchitecturesToOciSpec archMap, (seccompTransArchForDocker x).isSome) :
    isArchInSeccomp archMap arch = true ↔
      ∃ x ∈ dupArchitecturesToOciSpec archMap, seccompTransArchForDocker x = some arch := by
  induction archMap with
  | nil => simp [isArchInSeccomp, dupArchitecturesToOciSpec]
  | cons e rest ih =>
    simp only [mem_dupArchitecturesToOciSpec_cons] at hknown ⊢
    obtain ⟨d, hd⟩ := Option.isSome_iff_exists.1 (hknown e.architecture (.inl rfl))
    have hsubs := @isArchInSubArchitectures_eq arch _ fun x hx => hknown x (.inr (.inl hx))
    have hrest := ih fun x hx => hknown x (.inr (.inr hx))
    rw [isArchInSeccomp, hd]
    dsimp only
    by_cases hda : d = arch
    · -- the entry's own architecture
      simp only [hda, if_true, true_iff]
      exact ⟨e.architecture, .inl rfl, hd.trans (congrArg some hda)⟩
    · rw [if_neg hda, hsubs]
      by_cases hsub : ∃ x ∈ e.subArchitectures, seccompTransArchForDocker x = some arch
      · -- one of its sub-architectures
        simp only [decide_eq_true hsub, true_iff]
        obtain ⟨x, hx, hxa⟩ := hsub
        exact ⟨x, .inr (.inl hx), hxa⟩
      · -- neither: the later entries decide
        simp only [decide_eq_false hsub]
        rw [hrest]
        constructor
        · rintro ⟨x, hx, hxa⟩
          exact ⟨x, .inr (.inr hx), hxa⟩
        · rintro ⟨x, (rfl | hx | hx), hxa⟩
          · exact absurd (Option.some.inj (hd.symm.trans hxa)) hda
          · exact absurd ⟨x, hx, hxa⟩ hsub
          · exact ⟨x, hx, hxa⟩

/-- Docker's stock profile keeps two `clone` rules apart by architecture: the x86 one tests
the flags in argument `0`, the s390 one in argument `1`. On an amd64 daemon without
`CAP_SYS_ADMIN`, whose `archMap` lists `s390x`, `trans_docker_seccomp_to_oci_format` keeps the
s390 rule and drops the x86 one, the opposite of Docker's rule. -/
theorem transDockerSeccompToOciFormat_keeps_s390_clone :
    (transDockerSeccompToOciFormat
        ⟨"SCMP_ACT_ERRNO",
          [⟨"SCMP_ARCH_X86_64", ["SCMP_ARCH_X86", "SCMP_ARCH_X32"]⟩,
            ⟨"SCMP_ARCH_S390X", ["SCMP_ARCH_S390"]⟩],
          [⟨["clone"], "SCMP_ACT_ALLOW", [⟨0, 2080505856, 0, "SCMP_CMP_MASKED_EQ"⟩],
              some ⟨none, none⟩, some ⟨some ["s390", "s390x"], some ["CAP_SYS_ADMIN"]⟩⟩,
            ⟨["clone"], "SCMP_ACT_ALLOW", [⟨1, 2080505856, 0, "SCMP_CMP_MASKED_EQ"⟩],
              some ⟨some ["s390", "s390x"], none⟩, some ⟨none, some ["CAP_SYS_ADMIN"]⟩⟩]⟩
        (some ["CAP_CHOWN"])).map OciRuntimeConfigLinuxSeccomp.syscalls =
      some [⟨["clone"], "SCMP_ACT_ALLOW", [⟨1, 2080505856, 0, "SCMP_CMP_MASKED_EQ"⟩]⟩] ∧
    ([⟨["clone"], "SCMP_ACT_ALLOW", [⟨0, 2080505856, 0, "SCMP_CMP_MASKED_EQ"⟩],
          some ⟨none, none⟩, some ⟨some ["s390", "s390x"], some ["CAP_SYS_ADMIN"]⟩⟩,
        ⟨["clone"], "SCMP_ACT_ALLOW", [⟨1, 2080505856, 0, "SCMP_CMP_MASKED_EQ"⟩],
          some ⟨some ["s390", "s390x"], none⟩, some ⟨none, some ["CAP_SYS_ADMIN"]⟩⟩].filter
        (dockerRuleApplies "amd64" ["CAP_CHOWN"])).map dupSyscall =
      [⟨["clone"], "SCMP_ACT_ALLOW", [⟨0, 2080505856, 0, "SCMP_CMP_MASKED_EQ"⟩]⟩] := by
  constructor <;> decide

/-! ## Capabilities -/

/-- `g_all_caps`, with every optional capability the kernel headers define. -/
def gAllCaps : List String :=
  ["CAP_CHOWN", "CAP_DAC_OVERRIDE", "CAP_DAC_READ_SEARCH", "CAP_FOWNER", "CAP_FSETID", "CAP_KILL",
    "CAP_SETGID", "CAP_SETUID", "CAP_SETPCAP", "CAP_LINUX_IMMUTABLE", "CAP_NET_BIND_SERVICE",
    "CAP_NET_BROADCAST", "CAP_NET_ADMIN", "CAP_NET_RAW", "CAP_IPC_LOCK", "CAP_IPC_OWNER",
    "CAP_SYS_MODULE", "CAP_SYS_RAWIO", "CAP_SYS_CHROOT", "CAP_SYS_PTRACE", "CAP_SYS_PACCT",
    "CAP_SYS_ADMIN", "CAP_SYS_BOOT", "CAP_SYS_NICE", "CAP_SYS_RESOURCE", "CAP_SYS_TIME",
    "CAP_SYS_TTY_CONFIG", "CAP_MKNOD", "CAP_LEASE", "CAP_AUDIT_WRITE", "CAP_AUDIT_CONTROL",
    "CAP_SETFCAP", "CAP_MAC_OVERRIDE", "CAP_MAC_ADMIN", "CAP_SYSLOG", "CAP_WAKE_ALARM",
    "CAP_BLOCK_SUSPEND", "CAP_AUDIT_READ"]

/-- `g_system_caps`. -/
def gSystemCaps : List String :=
  ["SYS_BOOT", "SETPCAP", "NET_RAW", "NET_BIND_SERVICE", "AUDIT_WRITE", "DAC_OVERRIDE",
    "SETFCAP", "SETGID", "SETUID", "MKNOD", "CHOWN", "FOWNER", "FSETID", "KILL", "SYS_CHROOT"]

/-- `LIST_SIZE_MAX`. -/
def listSizeMax : Nat := 1000

/-- `strings_in_slice(strarray, alen, str)`: an entry equal to `str` up to case. -/
def stringsInSlice (strarray : List String) (str : String) : Bool :=
  strarray.any fun s => strcaseEq s str

/-- A capability's name after `CAP_` (`cap + strlen("CAP_")`). -/
def capName (cap : String) : String := String.ofList (cap.toList.drop 4)

/-- `valid_drops_cap(drops, drops_len)`: each entry is `all` or a capability's name. -/
def validDropsCap (drops : List String) : Bool :=
  drops.all fun d => strcaseEq d "all" || stringsInSlice gAllCaps ("CAP_" ++ d)

/-- `tweak_drops_capabilities`: nothing when `drops` holds `all`, else the capabilities it
does not name. -/
def tweakDropsCapabilities (basicCaps drops : List String) : List String :=
  if stringsInSlice drops "all" then []
  else basicCaps.filter fun c => !strcaseEq c "all" && !stringsInSlice drops (capName c)

/-- `tweak_adds_capabilities`: append `CAP_` and each added name not there yet; an unknown
name fails (a name too long for `MAX_CAP_LEN` is unknown too). -/
def tweakAddsCapabilities (newCaps : List String) : List String → Option (List String)
  | [] => some newCaps
  | a :: adds =>
    if strcaseEq a "all" then tweakAddsCapabilities newCaps adds
    else if !stringsInSlice gAllCaps ("CAP_" ++ a) then none
    else if stringsInSlice newCaps ("CAP_" ++ a) then tweakAddsCapabilities newCaps adds
    else tweakAddsCapabilities (newCaps ++ ["CAP_" ++ a]) adds

/-- `tweak_capabilities(&caps, adds, drops)`. -/
def tweakCapabilities (caps adds drops : List String) : Option (List String) :=
  if !validDropsCap drops then none
  else
    let basicCaps := if stringsInSlice adds "all" then gAllCaps else caps
    tweakAddsCapabilities (tweakDropsCapabilities basicCaps drops) adds

/-- `merge_caps(oci_spec, adds, drops)` on the bounding set. -/
def mergeCaps (bounding adds drops : List String) : Option (List String) :=
  if adds = [] ∧ drops = [] then some bounding
  else if listSizeMax < adds.length ∨ listSizeMax < drops.length then none
  else tweakCapabilities bounding adds drops

/-- `get_adds_cap_for_system_container(host_spec, &adds)`: the system capabilities that
`cap_drop` does not name. -/
def getAddsCapForSystemContainer (capDrop : List String) : List String :=
  gSystemCaps.filter fun c => !stringsInSlice capDrop c

/-- The fields of `host_config` that set the capabilities. -/
structure HostConfigCaps where
  capAdd : List String
  capDrop : List String
  systemContainer : Bool
  privileged : Bool

/-- The bounding set `merge_all_specs` leaves: `merge_security_conf`'s `merge_caps`, then
`merge_settings_for_system_container`'s, then all capabilities for a privileged container
(`adapt_settings_for_privileged`). -/
def mergeAllSpecsCaps (bounding : List String) (hostSpec : HostConfigCaps) :
    Option (List String) :=
  match mergeCaps bounding hostSpec.capAdd hostSpec.capDrop with
  | none => none
  | some bounding =>
    let system :=
      if hostSpec.systemContainer then
        mergeCaps bounding (getAddsCapForSystemContainer hostSpec.capDrop) []
      else some bounding
    match system with
    | none => none
    | some bounding => some (if hostSpec.privileged then gAllCaps else bounding)

/-- A capability that the request leaves in place: `cap_add` sweeps with `all` or names it,
or `cap_drop` neither sweeps with `all` nor names it. -/
def Respects (adds drops : List String) (cap : String) : Prop :=
  stringsInSlice adds "all" = true ∨ stringsInSlice adds (capName cap) = true ∨
    (stringsInSlice drops "all" = false ∧ stringsInSlice drops (capName cap) = false)

attribute [local simp] strcaseEq in
lemma strcaseEq_self (a : String) : strcaseEq a a = true := by
  simp [strcaseEq]

attribute [local simp] capName in
lemma capName_cap (a : String) : capName ("CAP_" ++ a) = a := by
  simp [capName, String.toList_append]

lemma mem_tweakDropsCapabilities {basicCaps drops : List String} {c : String}
    (h : c ∈ tweakDropsCapabilities basicCaps drops) :
    c ∈ basicCaps ∧ stringsInSlice drops "all" = false ∧ stringsInSlice drops (capName c) = false := by
  unfold tweakDropsCapabilities at h
  split at h
  · cases h
  · rename_i hall
    simp only [List.mem_filter, Bool.and_eq_true, Bool.not_eq_true'] at h
    exact ⟨h.1, by simpa using hall, h.2.2⟩

attribute [local simp] tweakAddsCapabilities in
/-- What `tweak_adds_capabilities` leaves was there or is `CAP_` and an added name. -/
lemma mem_tweakAddsCapabilities {newCaps adds r : List String}
    (h : tweakAddsCapabilities newCaps adds = some r) {c : String} (hc : c ∈ r) :
    c ∈ newCaps ∨ ∃ a ∈ adds, c = "CAP_" ++ a := by
  induction adds generalizing newCaps with
  | nil =>
    cases h
    exact .inl hc
  | cons a adds ih =>
    unfold tweakAddsCapabilities at h
    split at h
    · rcases ih h with hold | ⟨a', ha', rfl⟩
      · exact .inl hold
      · exact .inr ⟨a', List.mem_cons_of_mem _ ha', rfl⟩
    · split at h
      · cases h
      · split at h
        · rcases ih h with hold | ⟨a', ha', rfl⟩
          · exact .inl hold
          · exact .inr ⟨a', List.mem_cons_of_mem _ ha', rfl⟩
        · -- the name just appended is `a`'s
          rcases ih h with hold | ⟨a', ha', rfl⟩
          · rcases List.mem_append.1 hold with hold | hnew
            · exact .inl hold
            · exact .inr ⟨a, List.mem_cons_self, List.mem_singleton.1 hnew⟩
          · exact .inr ⟨a', List.mem_cons_of_mem _ ha', rfl⟩

/-- `tweak_capabilities` leaves only what the request leaves in place. -/
theorem tweakCapabilities_respects {caps adds drops r : List String}
    (h : tweakCapabilities caps adds drops = some r) {c : String} (hc : c ∈ r) :
    Respects adds drops c := by
  unfold tweakCapabilities at h
  split at h
  · cases h
  · rcases mem_tweakAddsCapabilities h hc with hkept | ⟨a, ha, rfl⟩
    · obtain ⟨-, hall, hname⟩ := mem_tweakDropsCapabilities hkept
      exact .inr (.inr ⟨hall, hname⟩)
    · refine .inr (.inl ?_)
      rw [capName_cap]
      exact List.any_eq_true.2 ⟨a, ha, strcaseEq_self a⟩

/-- The first `merge_caps` of `merge_all_specs` keeps the request's drops. -/
theorem mergeCaps_respects {bounding adds drops r : List String}
    (h : mergeCaps bounding adds drops = some r) {c : String} (hc : c ∈ r) :
    Respects adds drops c := by
  unfold mergeCaps at h
  split at h
  · rename_i hnil
    obtain ⟨rfl, rfl⟩ := hnil
    exact .inr (.inr ⟨rfl, rfl⟩)
  · split at h
    · cases h
    · exact tweakCapabilities_respects h hc

lemma tweakDropsCapabilities_of_all {basicCaps drops : List String}
    (h : stringsInSlice drops "all" = true) : tweakDropsCapabilities basicCaps drops = [] := by
  simp [tweakDropsCapabilities, h]

attribute [local simp] mergeCaps stringsInSlice in
/-- Dropping `ALL` empties any bounding set. -/
lemma mergeCaps_drop_all (bounding : List String) : mergeCaps bounding [] ["ALL"] = some [] := by
  have hvalid : validDropsCap ["ALL"] = true := by decide
  have hall : stringsInSlice ["ALL"] "all" = true := by decide
  simp [mergeCaps, tweakCapabilities, hvalid, tweakDropsCapabilities_of_all hall,
    stringsInSlice, tweakAddsCapabilities, listSizeMax]

/-! ## Capabilities up to case -/

/-- `strcasecmp` compares the lower-cased texts. -/
lemma strcaseEq_iff {a b : String} :
    strcaseEq a b = true ↔ a.toList.map Char.toLower = b.toList.map Char.toLower := by
  simp [strcaseEq]

lemma strcaseEq_comm (a b : String) : strcaseEq a b = strcaseEq b a := by
  simp [strcaseEq, eq_comm]

lemma strcaseEq_trans {a b c : String} (hab : strcaseEq a b = true) (hbc : strcaseEq b c = true) :
    strcaseEq a c = true :=
  strcaseEq_iff.2 ((strcaseEq_iff.1 hab).trans (strcaseEq_iff.1 hbc))

/-- `strings_in_slice` cannot tell two names apart that differ only in case. -/
lemma stringsInSlice_congr {l : List String} {x y : String} (h : strcaseEq x y = true) :
    stringsInSlice l x = stringsInSlice l y := by
  unfold stringsInSlice
  refine Bool.eq_iff_iff.2 ⟨fun hx => ?_, fun hy => ?_⟩
  · obtain ⟨s, hs, hsx⟩ := List.any_eq_true.1 hx
    exact List.any_eq_true.2 ⟨s, hs, strcaseEq_trans hsx h⟩
  · obtain ⟨s, hs, hsy⟩ := List.any_eq_true.1 hy
    exact List.any_eq_true.2 ⟨s, hs, strcaseEq_trans hsy (by rwa [strcaseEq_comm])⟩

/-- Nor can the name after `CAP_`. -/
lemma strcaseEq_capName {b c : String} (h : strcaseEq b c = true) :
    strcaseEq (capName b) (capName c) = true := by
  rw [strcaseEq_iff] at h ⊢
  simp only [capName, String.toList_ofList, List.map_drop, h]

lemma stringsInSlice_iff {l : List String} {c : String} :
    stringsInSlice l c = true ↔ ∃ s ∈ l, strcaseEq s c = true :=
  List.any_eq_true

lemma stringsInSlice_append (l₁ l₂ : List String) (c : String) :
    stringsInSlice (l₁ ++ l₂) c = (stringsInSlice l₁ c || stringsInSlice l₂ c) := by
  simp [stringsInSlice]

/-- A name `tweak_drops_capabilities` leaves, up to case: one of the set, not `all`, that
`drops` neither names nor sweeps with `all`. -/
lemma stringsInSlice_tweakDropsCapabilities (basicCaps drops : List String) (c : String) :
    stringsInSlice (tweakDropsCapabilities basicCaps drops) c = true ↔
      stringsInSlice drops "all" = false ∧ stringsInSlice drops (capName c) = false ∧
        ∃ b ∈ basicCaps, strcaseEq b c = true ∧ strcaseEq b "all" = false := by
  unfold tweakDropsCapabilities
  by_cases hall : stringsInSlice drops "all" = true
  · simp only [hall, if_true, Bool.true_eq_false, false_and, iff_false]
    simp [stringsInSlice]
  · simp only [hall, if_false, Bool.false_eq_true, true_and, stringsInSlice_iff, List.mem_filter,
      Bool.and_eq_true, Bool.not_eq_true']
    constructor
    · rintro ⟨b, ⟨hb, hnall, hnamed⟩, hbc⟩
      -- the name `b` is kept under is `c`'s, up to case
      have hname := stringsInSlice_congr (l := drops) (strcaseEq_capName hbc)
      exact ⟨hname.symm.trans hnamed, b, hb, hbc, hnall⟩
    · rintro ⟨hnamed, b, hb, hbc, hnall⟩
      have hname := stringsInSlice_congr (l := drops) (strcaseEq_capName hbc)
      exact ⟨b, ⟨hb, hnall, hname.trans hnamed⟩, hbc⟩

/-- `tweak_adds_capabilities` fails exactly on a name other than `all` that names no
capability. -/
lemma tweakAddsCapabilities_eq_none_iff (newCaps adds : List String) :
    tweakAddsCapabilities newCaps adds = none ↔
      ∃ a ∈ adds, strcaseEq a "all" = false ∧ stringsInSlice gAllCaps ("CAP_" ++ a) = false := by
  induction adds generalizing newCaps with
  | nil => simp [tweakAddsCapabilities]
  | cons a adds ih =>
    unfold tweakAddsCapabilities
    by_cases hall : strcaseEq a "all" = true
    · simp [hall, ih]
    · by_cases hknown : stringsInSlice gAllCaps ("CAP_" ++ a) = true
      · simp only [hall, hknown, if_false, Bool.not_true, Bool.false_eq_true]
        split <;> simp [ih, hall, hknown]
      · simp [hall, hknown]

/-- A name `tweak_adds_capabilities` returns, up to case: one there before, or `CAP_` and an
added name other than `all`. -/
lemma stringsInSlice_tweakAddsCapabilities {newCaps adds r : List String}
    (h : tweakAddsCapabilities newCaps adds = some r) (c : String) :
    stringsInSlice r c = true ↔
      stringsInSlice newCaps c = true ∨
        ∃ a ∈ adds, strcaseEq a "all" = false ∧ strcaseEq ("CAP_" ++ a) c = true := by
  induction adds generalizing newCaps with
  | nil =>
    cases h
    simp
  | cons a adds ih =>
    unfold tweakAddsCapabilities at h
    by_cases hall : strcaseEq a "all" = true
    · simp only [hall, if_true] at h
      simp [ih h, hall]
    · have hknown : stringsInSlice gAllCaps ("CAP_" ++ a) = true := by
        by_contra hk
        simp [hall, hk] at h
      simp only [hall, hknown, if_false, Bool.not_true, Bool.false_eq_true] at h
      split at h
      · -- a name already there up to case is not appended again
        rename_i hthere
        rw [ih h]
        constructor
        · rintro (hold | ⟨a', ha', hna', hc⟩)
          · exact .inl hold
          · exact .inr ⟨a', List.mem_cons_of_mem _ ha', hna', hc⟩
        · rintro (hold | ⟨a', ha', hna', hc⟩)
          · exact .inl hold
          · rcases List.mem_cons.1 ha' with rfl | ha'
            · exact .inl (by rwa [← stringsInSlice_congr hc])
            · exact .inr ⟨a', ha', hna', hc⟩
      · rw [ih h, stringsInSlice_append]
        have hsingle : stringsInSlice ["CAP_" ++ a] c = strcaseEq ("CAP_" ++ a) c := by
          simp [stringsInSlice]
        have hna : strcaseEq a "all" = false := by simpa using hall
        simp only [hsingle, Bool.or_eq_true, List.mem_cons, exists_eq_or_imp, hna, true_and,
          or_assoc]

/-- `merge_caps` fails exactly when the request lists more than `LIST_SIZE_MAX` names to add
or to drop, or a name other than `all` that names no capability. -/
theorem mergeCaps_eq_none_iff (bounding adds drops : List String) :
    mergeCaps bounding adds drops = none ↔
      ¬ (adds = [] ∧ drops = []) ∧
        (listSizeMax < adds.length ∨ listSizeMax < drops.length ∨
          (∃ d ∈ drops, strcaseEq d "all" = false ∧ stringsInSlice gAllCaps ("CAP_" ++ d) = false) ∨
          ∃ a ∈ adds, strcaseEq a "all" = false ∧ stringsInSlice gAllCaps ("CAP_" ++ a) = false) := by
  unfold mergeCaps tweakCapabilities validDropsCap
  by_cases hnil : adds = [] ∧ drops = []
  · simp [hnil]
  · by_cases hsize : listSizeMax < adds.length ∨ listSizeMax < drops.length
    · rcases hsize with hsize | hsize <;> simp [hnil, hsize]
    · obtain ⟨haddsLen, hdropsLen⟩ := not_or.1 hsize
      simp only [hnil, haddsLen, hdropsLen, if_false, not_false_eq_true, true_and, false_or]
      by_cases hdrops : (drops.all fun d => strcaseEq d "all" || stringsInSlice gAllCaps ("CAP_" ++ d))
      · have hno : ¬ ∃ d ∈ drops, strcaseEq d "all" = false ∧
            stringsInSlice gAllCaps ("CAP_" ++ d) = false := by
          rintro ⟨d, hd, hnall, hnknown⟩
          have := List.all_eq_true.1 hdrops d hd
          simp [hnall, hnknown] at this
        simp only [hdrops, Bool.not_true, Bool.false_eq_true, if_false, hno, false_or,
          tweakAddsCapabilities_eq_none_iff]
      · have hsome : ∃ d ∈ drops, strcaseEq d "all" = false ∧
            stringsInSlice gAllCaps ("CAP_" ++ d) = false := by
          simpa using hdrops
        simp [hdrops, hsome]

/-- What `merge_caps` leaves, up to case, when the request adds or drops anything: the names of
the set, or of all capabilities when `adds` holds `all`, that `drops` neither names nor sweeps
with `all`, and `CAP_` followed by each added name. -/
theorem mergeCaps_stringsInSlice {bounding adds drops r : List String}
    (h : mergeCaps bounding adds drops = some r) (hreq : ¬ (adds = [] ∧ drops = [])) (c : String) :
    stringsInSlice r c = true ↔
      (stringsInSlice drops "all" = false ∧ stringsInSlice drops (capName c) = false ∧
        ∃ b ∈ (if stringsInSlice adds "all" then gAllCaps else bounding),
          strcaseEq b c = true ∧ strcaseEq b "all" = false) ∨
      ∃ a ∈ adds, strcaseEq a "all" = false ∧ strcaseEq ("CAP_" ++ a) c = true := by
  unfold mergeCaps tweakCapabilities at h
  simp only [hreq, if_false] at h
  split at h
  · cases h
  · split at h
    · cases h
    · rw [stringsInSlice_tweakAddsCapabilities h, stringsInSlice_tweakDropsCapabilities]

/-- `--cap-add net_admin` leaves `CAP_net_admin`, in the user's spelling, which is not a name of
`g_all_caps`; and a thousand and one names to add fail, each of them known. -/
theorem mergeCaps_keeps_spelling_and_limit :
    mergeCaps ["CAP_CHOWN"] ["net_admin"] [] = some ["CAP_CHOWN", "CAP_net_admin"] ∧
    "CAP_net_admin" ∉ gAllCaps ∧
    mergeCaps [] (List.replicate 1001 "CHOWN") [] = none := by
  refine ⟨by decide +kernel, by decide, ?_⟩
  have hlen : listSizeMax < (List.replicate 1001 "CHOWN").length := by
    rw [List.length_replicate]
    decide
  have hne : List.replicate 1001 "CHOWN" ≠ [] := by
    rw [ne_eq, List.replicate_eq_nil_iff]
    decide
  rw [mergeCaps, if_neg fun h => hne h.1, if_pos (.inl hlen)]

/-- Whatever the default bounding set, a system container created with `--cap-drop ALL`
runs with the fifteen system capabilities, `CAP_SYS_BOOT` among them, which neither the
request's adds nor its drops leave in place. -/
theorem mergeAllSpecsCaps_system_regrants_dropped (bounding : List String) :
    mergeAllSpecsCaps bounding ⟨[], ["ALL"], true, false⟩ =
      some (gSystemCaps.map ("CAP_" ++ ·)) ∧
    "CAP_SYS_BOOT" ∈ gSystemCaps.map ("CAP_" ++ ·) ∧ ¬ Respects [] ["ALL"] "CAP_SYS_BOOT" := by
  have hsystem : mergeCaps [] (getAddsCapForSystemContainer ["ALL"]) [] =
      some (gSystemCaps.map ("CAP_" ++ ·)) := by
    -- the kernel evaluates the fifteen names against `g_all_caps` once
    decide +kernel
  refine ⟨?_, by decide, ?_⟩
  · simp [mergeAllSpecsCaps, mergeCaps_drop_all, hsystem]
  · unfold Respects
    decide

end SpecsSecurity

end Isulad
