import DataPropagator.CentralPropagator.Routing
import DataPropagator.DataSource.LaunchHandles
import DataPropagator.Lib.ArgumentVector

/-!
# What the launched processes read

The launchers put the id and the port of a row into a command line, the C library takes the line
apart, and both `main` functions read `argv[1]` and `argv[2]`.  The bytes are those of a code page
in which every byte is a character.

A process reads the id and the port of its row if and only if the id holds no double quote and does
not end in a backslash (`arguments_read_back_iff`).  In a table of such ids whose launchers return
arrays, the processes are the rows, one each, and each finds its own row in the table.
-/

namespace DataPropagator

open ArgumentVector (Quotable argv)

namespace Handles

/-! ## Reading the arguments -/

/-- The characters that have a meaning in a command line. -/
def commandMarks : ArgumentVector.Marks UInt8 where
  backslash := backslash
  quote := quote
  blank := fun c => c == 32 || c == 9
  backslash_ne_quote := by decide
  quote_not_blank := by decide
  backslash_not_blank := by decide

/-- The arguments of both `main` functions: the id and the port, or `none` after the usage
message. -/
def mainArguments (cmd : Bytes) : Option (CString × UInt16) :=
  match argv commandMarks cmd with
  | [_, id, port] => some (CString.ofBuffer id, UInt16.ofInt (atoi port))
  | _ => none

/-- The id of a row gets through a command line. -/
def Speakable (node : NodeInfo) : Prop :=
  quote ∉ node.id.bytes ∧ node.id.bytes.getLast? ≠ some backslash

/-! ## The command line of a row -/

theorem decimal_unmarked (n : Nat) : ∀ c ∈ decimal n, c ≠ commandMarks.backslash ∧
    c ≠ commandMarks.quote ∧ commandMarks.blank c = false := by
  intro c hc
  have hdigit := isdigit_of_mem_decimal n c hc
  simp only [isdigit, Bool.and_eq_true, decide_eq_true_eq] at hdigit
  obtain ⟨hlow, hhigh⟩ := hdigit
  refine ⟨?_, ?_, ?_⟩
  · rintro rfl
    exact absurd hhigh (by decide)
  · rintro rfl
    exact absurd hlow (by decide)
  · rw [Bool.eq_false_iff]
    intro hblank
    rcases (Bool.or_eq_true _ _).mp hblank with h | h <;> rw [beq_iff_eq] at h <;> subst h
    · exact absurd hlow (by decide)
    · exact absurd hlow (by decide)

theorem quote_not_mem_exePath {modulePath : CString} (h : quote ∉ modulePath.bytes)
    (program : Program) : quote ∉ exePath modulePath program := by
  intro hmem
  have htext := List.mem_of_mem_take hmem
  rw [List.mem_append] at htext
  rcases htext with hdir | hname
  · apply h
    rw [directory] at hdir
    split at hdir
    · rw [List.mem_reverse] at hdir
      exact List.mem_reverse.mp ((List.dropWhile_sublist _).subset hdir)
    · exact hdir
  · revert hname
    cases program <;> decide

theorem commandText_eq_line (exe : Bytes) (node : NodeInfo) : commandText exe node =
    ArgumentVector.line commandMarks space exe node.id.bytes (decimal node.port.toNat) := by
  simp [commandText, ArgumentVector.line, commandMarks]

variable {nodes : List NodeInfo} {modulePath : CString} {program : Program} {node : NodeInfo}

theorem mainArguments_of_speakable (h : Loaded nodes) (hpath : quote ∉ modulePath.bytes)
    (hnode : node ∈ nodes) (hid : Speakable node) :
    mainArguments (commandLine (exePath modulePath program) node) = some (node.id, node.port) := by
  have hargv := ArgumentVector.argv_of_quotable (m := commandMarks) (b := space)
    (x := node.id.bytes) (quote_not_mem_exePath hpath program) rfl
    (decimal_unmarked node.port.toNat) (decimal_ne_nil _) hid
  rw [mainArguments, commandLine_loaded h modulePath program node hnode, commandText_eq_line,
    hargv]
  simp only [CString.ofBuffer_bytes, atoi_decimal]

/-- What `argv[1]` holds was written into the line, so it holds no zero byte. -/
theorem zero_not_mem_argument (node : NodeInfo) : (0 : UInt8) ∉ (ArgumentVector.argument
    commandMarks .plain 0 (commandMarks.quote :: (node.id.bytes ++ commandMarks.quote :: space ::
      decimal node.port.toNat))).1 := by
  intro hzero
  have hdecimal : (0 : UInt8) ∉ decimal node.port.toNat := by
    intro hmem
    have hdigit := isdigit_of_mem_decimal _ _ hmem
    exact absurd hdigit (by decide)
  rcases ArgumentVector.mem_argument hzero with hmem | hmem | hmem
  · simp only [List.mem_cons, List.mem_append] at hmem
    rcases hmem with hmem | hmem | hmem | hmem | hmem
    · exact absurd hmem (by decide)
    · exact node.id.noZero hmem
    · exact absurd hmem (by decide)
    · exact absurd hmem (by decide)
    · exact hdecimal hmem
  · exact absurd hmem (by decide)
  · exact absurd hmem (by decide)

theorem speakable_of_mainArguments (h : Loaded nodes) (hpath : quote ∉ modulePath.bytes)
    (hnode : node ∈ nodes) {port : UInt16}
    (hmain : mainArguments (commandLine (exePath modulePath program) node) =
      some (node.id, port)) : Speakable node := by
  have hname := quote_not_mem_exePath hpath program
  have hword := decimal_unmarked node.port.toNat
  rw [mainArguments, commandLine_loaded h modulePath program node hnode,
    commandText_eq_line] at hmain
  split at hmain
  next _ a x w hargv =>
      rw [Option.some.injEq, Prod.mk.injEq] at hmain
      have hx := hargv
      rw [ArgumentVector.argv_line (m := commandMarks) (b := space) hname rfl, List.cons.injEq,
        List.cons.injEq] at hx
      have hzero := zero_not_mem_argument node
      rw [hx.2.1] at hzero
      have hid : node.id.bytes = x := by
        rw [← hmain.1, CString.bytes_ofBuffer hzero]
      rw [← hid] at hargv
      exact ArgumentVector.quotable_of_argv (m := commandMarks) (b := space) hname rfl hword hargv
  next => cases hmain

/-! ## The processes of a table -/

/-- Both launchers together start every row of a table once. -/
theorem launches_perm (nodes : List NodeInfo) :
    (nodes.filter (launches .centralPropagator) ++
      nodes.filter (launches .dataDestination)).Perm nodes := by
  have hflip : nodes.filter (launches .centralPropagator) =
      nodes.filter fun node => !launches .dataDestination node := rfl
  rw [hflip]
  exact List.perm_append_comm.trans (List.filter_append_perm _ nodes)

/-- For every table that `node_load_all` returns and every row of it, whatever the directory of the
programs: the process launched for the row reads the id and the port of the row if and only if the
id holds no double quote and does not end in a backslash, and with any other id it does not even
read the id. -/
theorem arguments_read_back_iff (h : Loaded nodes) (hpath : quote ∉ modulePath.bytes)
    (program : Program) (hnode : node ∈ nodes) :
    (mainArguments (commandLine (exePath modulePath program) node) = some (node.id, node.port) ↔
        Speakable node) ∧
      (¬ Speakable node → ∀ port,
        mainArguments (commandLine (exePath modulePath program) node) ≠ some (node.id, port)) := by
  refine ⟨⟨speakable_of_mainArguments h hpath hnode,
    mainArguments_of_speakable h hpath hnode⟩, ?_⟩
  intro hid port hmain
  exact hid (speakable_of_mainArguments h hpath hnode hmain)

/-- `C:\b.exe`. -/
def sampleModulePath : CString where
  bytes := [67, 58, 92, 98, 46, 101, 120, 101]
  noZero := by decide

theorem arguments_read_back_iff_sample : ∃ node ∈ twoRows, node.id = nameB ∧
    mainArguments (commandLine (exePath sampleModulePath .dataDestination) node) =
      some (nameB, 2) := by
  have hpath : quote ∉ sampleModulePath.bytes := by decide
  obtain ⟨node, hnode, hid, hport⟩ : ∃ node ∈ twoRows, node.id = nameB ∧ node.port = 2 :=
    ⟨_, List.mem_cons_of_mem _ (List.mem_cons_self ..), rfl, rfl⟩
  have hspeakable : Speakable node := by
    rw [Speakable, hid]
    exact ⟨by decide, by decide⟩
  have hread := (arguments_read_back_iff ⟨twoRowFile, twoRowFile_load⟩ hpath .dataDestination
    hnode).1.mpr hspeakable
  rw [hid, hport] at hread
  exact ⟨node, hnode, hid, hread⟩

/-- The arguments of the processes of a launcher that returned an array. -/
theorem Started.arguments {es : List Event} {infos : List ProcessInformation} (h : Loaded nodes)
    (hpath : quote ∉ modulePath.bytes) (hids : ∀ node ∈ nodes, Speakable node)
    (hstarted : Started program modulePath nodes es infos) :
    (started es).map (fun p => mainArguments p.1) =
      (nodes.filter (launches program)).map fun node => some (node.id, node.port) := by
  have hmap : (started es).map (fun p => mainArguments p.1) =
      ((started es).map Prod.fst).map mainArguments := by rw [List.map_map]; rfl
  rw [hmap, hstarted.commands, List.map_map]
  refine List.map_congr_left ?_
  intro node hnode
  have hmem := List.mem_of_mem_filter hnode
  exact mainArguments_of_speakable h hpath hmem (hids node hmem)

/-- What a started process reads is a row of its kind. -/
theorem Started.row {es : List Event} {infos : List ProcessInformation} (h : Loaded nodes)
    (hpath : quote ∉ modulePath.bytes) (hids : ∀ node ∈ nodes, Speakable node)
    (hstarted : Started program modulePath nodes es infos) {p : Bytes × ProcessInformation}
    (hp : p ∈ started es) : ∃ (i : Nat) (node : NodeInfo), nodes[i]? = some node ∧
      launches program node = true ∧ mainArguments p.1 = some (node.id, node.port) := by
  have hmem : mainArguments p.1 ∈ (started es).map fun p => mainArguments p.1 :=
    List.mem_map_of_mem hp
  rw [hstarted.arguments h hpath hids, List.mem_map] at hmem
  obtain ⟨node, hnode, hmain⟩ := hmem
  obtain ⟨hnode, hkind⟩ := List.mem_filter.mp hnode
  obtain ⟨i, hi⟩ := List.mem_iff_getElem?.mp hnode
  exact ⟨i, node, hi, hkind, hmain.symm⟩

/-- For every table without cycles whose ids are distinct and get through a command line: once both
launchers have returned an array, the processes that were started are the rows, one process for each
row, with its id and its port.  A process of a row that is not a `DESTINATION` is a
`CentralPropagator`, whose context is its own row with the children of that row; a process of a
`DESTINATION` is a `DataDestination`. -/
theorem launched_processes_are_rows {content : Bytes} (hload : nodeLoadAll (some content) = .ok nodes)
    (hac : Forest.Acyclic (parentOf nodes)) (hdistinct : DistinctIds nodes)
    (hids : ∀ node ∈ nodes, Speakable node) (hpath : quote ∉ modulePath.bytes)
    {cpOut ddOut : Nat} {cpEnv ddEnv : Env} {r : Lifetime}
    (hr : lifetime modulePath nodes cpOut ddOut cpEnv ddEnv = .ok r)
    (hcp : r.cp.isSome) (hdd : r.dd.isSome) :
    ((started r.cpLog ++ started r.ddLog).map fun p => mainArguments p.1).Perm
        (nodes.map fun node => some (node.id, node.port)) ∧
      (∃ bound, ∀ p ∈ started r.cpLog, ∃ (i : Nat) (node : NodeInfo), nodes[i]? = some node ∧
        node.type ≠ .destination ∧ mainArguments p.1 = some (node.id, node.port) ∧
        ∀ fuel, bound ≤ fuel → ∃ ctx, cpContextCreate fuel (some content) node.id =
          some (some ctx) ∧ ctx.me = i ∧ ctx.children = childrenOf nodes i) ∧
      ∀ p ∈ started r.ddLog, ∃ (i : Nat) (node : NodeInfo), nodes[i]? = some node ∧
        node.type = .destination ∧ mainArguments p.1 = some (node.id, node.port) := by
  have h : Loaded nodes := ⟨content, hload⟩
  obtain ⟨cp, cps, cpLog, hcpRun, howns, hbooks, hcpStarted⟩ := cpLaunchAll_spec modulePath nodes
    cpEnv cpOut (s := {}) ⟨Or.inl ⟨rfl, rfl⟩, Or.inl ⟨rfl, rfl⟩⟩
  obtain ⟨dd, dds, ddLog, hddRun, howns', hbooks', hddStarted⟩ := ddLaunchAll_spec modulePath nodes
    ddEnv ddOut (s := cp.state.withLog []) ⟨howns.cp, howns.dd⟩
  obtain ⟨t, endLog, hend, _⟩ :=
    cpTerminateAll_spec (s := dd.state.withLog []) ⟨howns'.cp, howns'.dd⟩
  have hcpLog : cp.state.log = cpLog := hbooks.log
  have hddLog : dd.state.log = ddLog := hbooks'.log
  simp only [lifetime, hcpRun, hddRun, hend, hcpLog, hddLog, bind, Except.bind, pure,
    Except.pure, Except.ok.injEq] at hr
  subst hr
  obtain ⟨procs, hprocs⟩ := Option.isSome_iff_exists.mp hcp
  obtain ⟨procs', hprocs'⟩ := Option.isSome_iff_exists.mp hdd
  have hcps := (hcpStarted procs hprocs).2
  have hdds := (hddStarted procs' hprocs').2
  refine ⟨?_, ?_, ?_⟩
  · rw [List.map_append, hcps.arguments h hpath hids, hdds.arguments h hpath hids,
      ← List.map_append]
    exact (launches_perm nodes).map _
  · obtain ⟨bound, henough⟩ := exists_enoughFuel h hac
    refine ⟨bound, ?_⟩
    intro p hp
    obtain ⟨i, node, hi, hkind, hmain⟩ := hcps.row h hpath hids hp
    refine ⟨i, node, hi, by simpa [launches] using hkind, hmain, ?_⟩
    intro fuel hfuel
    obtain ⟨l, hl⟩ := (henough fuel hfuel).listing i (List.getElem?_eq_some_iff.mp hi).1
    obtain ⟨ctx, hctx, hme⟩ := cpContextCreate_of_preorder hload (hdistinct.lastRow hi) hl
    obtain ⟨_, _, hchildren, _⟩ := cpContextCreate_some hload hctx
    exact ⟨ctx, hctx, hme, hme ▸ hchildren⟩
  · intro p hp
    obtain ⟨i, node, hi, hkind, hmain⟩ := hdds.row h hpath hids hp
    exact ⟨i, node, hi, by simpa [launches] using hkind, hmain⟩

theorem launched_processes_are_rows_sample :
    ∃ r, lifetime sampleModulePath twoRows 0 0 {} {} = .ok r ∧
      ((started r.cpLog ++ started r.ddLog).map fun p => mainArguments p.1).Perm
        (twoRows.map fun node => some (node.id, node.port)) := by
  have hids : ∀ node ∈ twoRows, Speakable node := by
    intro node hnode
    rcases List.mem_pair.mp hnode with rfl | rfl <;> exact ⟨by decide, by decide⟩
  obtain ⟨r, hr, hcp, hdd⟩ : ∃ r, lifetime sampleModulePath twoRows 0 0 {} {} = .ok r ∧
      r.cp.isSome ∧ r.dd.isSome := ⟨_, rfl, rfl, rfl⟩
  obtain ⟨hperm, _⟩ := launched_processes_are_rows twoRowFile_load twoRows_acyclic (by decide) hids
    (show quote ∉ sampleModulePath.bytes by decide) hr hcp hdd
  exact ⟨r, hr, hperm⟩

end Handles

end DataPropagator
