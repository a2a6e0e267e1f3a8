import PiSubagent.Preflight.Resources

/-!
# What the digests of resources say of their content

The loaders of context files, of skills and of agent definitions read a file for its digest and read
it again for its content, while other processes may write it between.

* `discoverAndProjectContextFiles`, `discoverAndProjectSkills`, `discoverAgents`: as the code computes
  them, on a schedule of the files.
* `Projected.Named`, `Preload.Named`, `Discovered.Named`: the content is what the digest names.
* `Projected.Steady`, `Preload.Steady`, `Discovered.Steady`: what the two reads must have in common.
* **`provenance_iff`**: the content is what the digest names exactly when the reads are steady.
* **`context_rewritten`**, `context_marked`: a file rewritten between its two reads, and one with a byte
  order mark.
-/

namespace PiSubagent

open JsonText

namespace Preflight.Provenance

open Resources

/-! ## Texts -/

/-- `readFile(…, "utf8")`, of the bytes it reads. -/
abbrev utf8 (bytes : List UInt8) : List Char := Utf8.decode bytes

/-- The byte order mark. -/
def byteOrderMark : Char := '\uFEFF'

/-- `new TextDecoder("utf-8", { fatal: true }).decode`: bytes that are no text are refused, and a byte
order mark at the beginning is dropped. -/
def fatalDecode (bytes : List UInt8) : Option (List Char) :=
  if Utf8.encode (Utf8.decode bytes) = bytes then
    match Utf8.decode bytes with
    | c :: text => some (if c = byteOrderMark then text else c :: text)
    | [] => some []
  else none

/-- Bytes without a byte order mark at their beginning. -/
def stripMark : List UInt8 → List UInt8
  | 0xEF :: 0xBB :: 0xBF :: bytes => bytes
  | bytes => bytes

/-- The units of a text. -/
def units (text : List Char) : JsString := text.flatMap unitsOf

/-! ## Paths -/

/-- `path.dirname`, of an absolute path without dots. -/
def dirname (path : JsString) : JsString := PosixPath.absolute (PosixPath.walk [] path).dropLast

/-- `path.basename`. -/
def basename (path : JsString) : JsString :=
  (((PosixPath.segments path).filter (· ≠ [])).getLast?).getD []

/-- `path.basename`, with the extension taken off. -/
def stem (path extension : JsString) : JsString :=
  let base := basename path
  if extension.isSuffixOf base ∧ base ≠ extension then
    base.take (base.length - extension.length)
  else base

/-- `isInside`. -/
def isInside (root candidate : JsString) : Bool :=
  let relative := PosixPath.relative root candidate
  relative = [] ||
    (relative ≠ PosixPath.dotDot && !(PosixPath.dotDot ++ [47]).isPrefixOf relative &&
      !PosixPath.isAbsolute relative)

/-! ## Context files -/

/-- The options of `discoverAndProjectContextFiles`, and the directory of the process. -/
structure ContextOptions where
  workspaceRoot : JsString
  agentDir : JsString
  projectTrusted : Bool
  scopes : List ContextScope
  processCwd : JsString

/-- `ProjectedContextFile`, with the files its digest read and the moment its content was read. -/
structure Projected where
  scope : ContextScope
  hostFilePath : JsString
  guestFilePath : JsString
  content : List Char
  grant : ResourceGrant
  readings : List Reading
  contentAt : ℕ

/-- `new ContextFileProjectionError(message)`. -/
def contextFileError (message : String) : LoadError := .contextFile (ofString message)

/-- The first loop of `discoverAndProjectContextFiles`: the files of the scopes. -/
def selectContextFiles (w : Schedule) (options : ContextOptions)
    (canonicalAgentDir canonicalWorkspaceRoot : JsString) :
    List JsString → List (ContextScope × JsString) → Load (List (ContextScope × JsString))
  | [], selected => pure selected
  | path :: paths, selected => do
    let sourcePath := PosixPath.resolve options.processCwd path
    let sourceDir ← call w (·.realpath (dirname sourcePath))
    let logicalSourcePath := PosixPath.join sourceDir (basename sourcePath)
    let scope : ContextScope := if sourceDir = canonicalAgentDir then .global else .project
    let metadata ← call w (·.lstat sourcePath)
    let canonicalPath ← call w (·.realpath sourcePath)
    throwIf (scope = .project ∧ isInside canonicalWorkspaceRoot logicalSourcePath = true ∧
        (metadata.kind = .symbolicLink ∨ isInside canonicalWorkspaceRoot canonicalPath = false))
      (.contextFile (ofString "repository context file cannot escape through a symlink: " ++
        sourcePath))
    selectContextFiles w options canonicalAgentDir canonicalWorkspaceRoot paths
      (if scope ∈ options.scopes then selected ++ [(scope, canonicalPath)] else selected)

/-- `MAX_CONTEXT_FILES`. -/
def maxContextFiles : ℕ := 16

/-- `MAX_CONTEXT_FILE_BYTES`. -/
def maxContextFileBytes : ℕ := 256 * 1024

/-- `MAX_CONTEXT_TOTAL_BYTES`. -/
def maxContextTotalBytes : ℕ := 512 * 1024

/-- The second loop of `discoverAndProjectContextFiles`: digests and contents. -/
def projectContextFiles (S : Sha256) (w : Schedule) :
    List (ContextScope × JsString) → ℕ → ℕ → List Projected → Load (List Projected)
  | [], _, _, files => pure files
  | (scope, path) :: selected, index, totalBytes, files => do
    let digest ← digestFileResource S w path ⟨1, maxContextFileBytes⟩
    let contentAt ← moment
    let bytes ← call w (·.readFile digest.canonicalPath)
    match fatalDecode bytes with
    | none =>
      lift (.error (.contextFile (ofString "context file is not valid UTF-8: " ++
        digest.canonicalPath)))
    | some content => do
      throwIf (maxContextTotalBytes < totalBytes + bytes.length)
        (contextFileError "context files exceed total byte limit")
      let name := ofString scope.text ++ ofString "-" ++ ofString (toString index) ++ ofString "-" ++
        digest.sha256.take 12
      projectContextFiles S w selected (index + 1) (totalBytes + bytes.length)
        (files ++ [{
          scope := scope
          hostFilePath := digest.canonicalPath
          guestFilePath := ofString "/context/" ++ name ++ ofString "/" ++
            basename digest.canonicalPath
          content := content
          grant := ⟨.context, name, digest.canonicalPath, digest.sha256⟩
          readings := digest.readings
          contentAt := contentAt }])

/-- `discoverAndProjectContextFiles`; `loadProjectContextFiles` finds the paths. -/
def discoverAndProjectContextFiles (S : Sha256) (w : Schedule)
    (loadProjectContextFiles : Load (List JsString)) (options : ContextOptions) :
    Load (List Projected) :=
  if options.scopes = [] then pure []
  else do
    throwIf (.project ∈ options.scopes ∧ options.projectTrusted = false)
      (contextFileError "project context requires a trusted project")
    let canonicalAgentDir ← call w (·.realpath options.agentDir)
    let canonicalWorkspaceRoot ← call w (·.realpath options.workspaceRoot)
    let discovered ← loadProjectContextFiles
    let selected ←
      selectContextFiles w options canonicalAgentDir canonicalWorkspaceRoot discovered []
    throwIf (maxContextFiles < selected.length)
      (contextFileError "context file count exceeds limit")
    projectContextFiles S w selected 0 0 []

/-- The content of a context file is what its grant names. -/
def Projected.Named (S : Sha256) (f : Projected) : Prop :=
  S.digest (Utf8.encode f.content) = f.grant.sha256

/-- When the digest was computed, the file had the bytes that it had when the content was read, a byte
order mark at the beginning of these apart. -/
def Projected.Steady (w : Schedule) (f : Projected) : Prop :=
  ∃ r ∈ f.readings, ∃ digested read, (w r.at_).readFile r.path = .ok digested ∧
    (w f.contentAt).readFile f.hostFilePath = .ok read ∧ digested = stripMark read

/-! ## Skills -/

/-- What `DefaultResourceLoader` says of a skill. -/
structure Skill where
  name : JsString
  description : JsString
  baseDir : JsString
  filePath : JsString

/-- `ProjectedSkill`, with the files its digest read. -/
structure DatedSkill extends ProjectedSkill where
  description : JsString
  hostBaseDir : JsString
  guestBaseDir : JsString
  guestFilePath : JsString
  readings : List Reading

/-- `relativeFile`: the path of the skill file in its tree. -/
def DatedSkill.relativeFile (skill : DatedSkill) : JsString :=
  PosixPath.relative skill.hostBaseDir skill.hostFilePath

/-- A skill whose text is preloaded, and the moment the text was read. -/
structure Preload where
  skill : DatedSkill
  content : List Char
  contentAt : ℕ

/-- `SkillProjection`, with the skills that are preloaded. -/
structure SkillProjection where
  catalog : List DatedSkill
  preloadPrompt : List Char
  preloads : List Preload

/-- `^[a-z0-9][a-z0-9-]{0,63}$`. -/
def isSkillName (name : JsString) : Bool :=
  match name with
  | [] => false
  | u :: us => (isLowerUnit u || isDigitUnit u) && us.length ≤ 63 &&
      us.all fun v => isLowerUnit v || isDigitUnit v || v = 45

/-- The catalog of `discoverAndProjectSkills`, before it is sorted. -/
def projectSkills (S : Sha256) (w : Schedule) (depth : ℕ) :
    List Skill → List JsString → List DatedSkill → Load (List DatedSkill)
  | [], _, catalog => pure catalog
  | skill :: skills, names, catalog => do
    throwIf (isSkillName skill.name = false)
      (.skill (ofString "invalid discovered skill name: " ++ skill.name))
    throwIf (skill.name ∈ names) (.skill (ofString "duplicate discovered skill: " ++ skill.name))
    let hostBaseDir ← call w (·.realpath skill.baseDir)
    let hostFilePath ← call w (·.realpath skill.filePath)
    throwIf (isInside hostBaseDir hostFilePath = false)
      (.skill (ofString "skill file escapes base directory: " ++ skill.name))
    let (digest, _) ← digestTreeResource S w depth hostBaseDir defaultLimits
    let guestBaseDir := ofString "/skills/" ++ digest.sha256.take 16 ++ ofString "/" ++ skill.name
    projectSkills S w depth skills (skill.name :: names)
      (catalog ++ [{
        name := skill.name
        description := skill.description
        hostBaseDir := hostBaseDir
        hostFilePath := hostFilePath
        guestBaseDir := guestBaseDir
        guestFilePath :=
          PosixPath.join guestBaseDir (PosixPath.relative hostBaseDir hostFilePath)
        sha256 := digest.sha256
        readings := digest.readings }])

/-- `MAX_PRELOAD_BYTES`. -/
def maxPreloadBytes : ℕ := 256 * 1024

/-- The section of a preloaded skill in the prompt. -/
def Preload.text (p : Preload) : List Char :=
  "<preloaded_skill name=".toList ++ quote p.skill.name ++ " path=".toList ++
    quote p.skill.guestFilePath ++ ">\n".toList ++ p.content ++ "\n</preloaded_skill>".toList

/-- `preloadSections.join("\n\n")`. -/
def promptOf (preloads : List Preload) : List Char :=
  "\n\n".toList.intercalate (preloads.map Preload.text)

/-- The loop of `discoverAndProjectSkills` over the names to preload. -/
def preloadSkills (w : Schedule) (catalog : List DatedSkill) :
    List JsString → ℕ → List Preload → Load (List Preload)
  | [], _, preloads => pure preloads
  | name :: names, preloadBytes, preloads =>
    match catalog.find? fun skill => skill.name = name with
    | none => lift (.error (.skill (ofString "preload skill not found: " ++ name)))
    | some skill => do
      let contentAt ← moment
      let bytes ← call w (·.readFile skill.hostFilePath)
      let content := utf8 bytes
      let preloadBytes := preloadBytes + (Utf8.encode content).length
      throwIf (maxPreloadBytes < preloadBytes)
        (.skill (ofString "preloaded skills exceed byte limit"))
      preloadSkills w catalog names preloadBytes (preloads ++ [⟨skill, content, contentAt⟩])

/-- `discoverAndProjectSkills`; `getSkills` is what the resource loader finds. -/
def discoverAndProjectSkills (S : Sha256) (w : Schedule) (depth : ℕ) (getSkills : Load (List Skill))
    (preload : List JsString) : Load SkillProjection := do
  let discovered ← getSkills
  let skills ← projectSkills S w depth discovered [] []
  let catalog := sortBy (·.name) skills
  let preloads ← preloadSkills w catalog preload.eraseDups 0 []
  return ⟨catalog, promptOf preloads, preloads⟩

/-- The text of a preloaded skill is that of its file in a tree that its digest names. -/
def Preload.Named (S : Sha256) (p : Preload) : Prop :=
  ∃ entries bytes, Canonical.canonicalSha256 S.digest (listing entries) = .ok p.skill.sha256 ∧
    HasFile entries p.skill.relativeFile (S.digest bytes) ∧ p.content = utf8 bytes

/-- When the digest was computed, the file was in the tree with the text that was read later. -/
def Preload.Steady (w : Schedule) (p : Preload) : Prop :=
  ∃ r ∈ p.skill.readings, r.name = p.skill.relativeFile ∧ ∃ digested read,
    (w r.at_).readFile r.path = .ok digested ∧
      (w p.contentAt).readFile p.skill.hostFilePath = .ok read ∧ utf8 digested = utf8 read

/-! ## Agent definitions -/

/-- `AgentSource`. -/
structure AgentSource where
  scope : AgentScope
  directory : JsString
  trusted : Bool

/-- The metadata of a definition. -/
structure Frontmatter where
  name : JsString
  model : Option ExactModelRequest
  allowedModels : Option (List JsString)
  tools : List JsString
  preloadSkills : List JsString
  contextScopes : List ContextScope
  workspaceModes : List WorkspaceMode
  limits : RunLimits
  memoryBytes : Option ℕ

/-- What the loader takes from elsewhere: YAML, and the check of the closed schema with the texts of
its errors. -/
structure FrontmatterReader where
  Metadata : Type
  parse : List Char → Except JsString Metadata
  check : Metadata → Except JsString Frontmatter

/-- `new AgentDiscoveryError(message)`. -/
def agentError (message : String) : LoadError := .agent (ofString message)

/-- `replaceAll("\r\n", "\n")`. -/
def normalizeNewlines : List Char → List Char
  | '\r' :: '\n' :: text => '\n' :: normalizeNewlines text
  | c :: text => c :: normalizeNewlines text
  | [] => []

/-- The text before the first `pattern` and the text after it. -/
def splitFirst (pattern : List Char) : List Char → Option (List Char × List Char)
  | [] => if pattern = [] then some ([], []) else none
  | c :: text =>
    if pattern.isPrefixOf (c :: text) then some ([], (c :: text).drop pattern.length)
    else (splitFirst pattern text).map fun r => (c :: r.1, r.2)

/-- `splitFrontmatter`. -/
def splitFrontmatter (P : FrontmatterReader) (content : List Char) :
    Except LoadError (P.Metadata × List Char) :=
  let normalized := normalizeNewlines content
  if "---\n".toList.isPrefixOf normalized = false then
    .error (agentError "agent definition requires YAML frontmatter")
  else
    match splitFirst "\n---\n".toList (normalized.drop 4) with
    | none => .error (agentError "agent frontmatter is unterminated")
    | some (head, rest) =>
      match P.parse head with
      | .error message => .error (.agent (ofString "invalid agent YAML: " ++ message))
      | .ok metadata =>
        let prompt := trimBy (fun c => (unitsOf c).all isSpaceUnit) rest
        if prompt = [] then .error (agentError "agent prompt is empty")
        else if 256 * 1024 < (Utf8.encode prompt).length then
          .error (agentError "agent prompt exceeds byte limit")
        else .ok (metadata, prompt)

/-- `admittedModels`. -/
def admittedModels (filePath : JsString) (f : Frontmatter) : Except LoadError (List JsString) :=
  match f.model with
  | none =>
    let allowed := f.allowedModels.getD []
    if inheritModel ∉ allowed ∧ hostModel ∉ allowed then
      .error (.agent (ofString "agent definition names no model and its allowedModels admit " ++
        ofString "neither inherit nor host: " ++ filePath))
    else .ok allowed
  | some model =>
    let allowed := f.allowedModels.getD [modelKey model]
    if modelKey model ∉ allowed then
      .error (agentError "default model exceeds agent model ceiling")
    else .ok allowed

/-- `loadAgent`, before it computes the digest. -/
def readFrontmatter (P : FrontmatterReader) (filePath : JsString) (content : List Char) :
    Except LoadError (Frontmatter × List Char) := do
  let (metadata, prompt) ← splitFrontmatter P content
  match P.check metadata with
  | .error details =>
    .error (.agent (ofString "invalid agent frontmatter: " ++ filePath ++
      if details = [] then [] else ofString " (" ++ details ++ ofString ")"))
  | .ok f =>
    if stem filePath (ofString ".md") ≠ f.name then
      .error (.agent (ofString "agent name does not match file: " ++ filePath))
    else .ok (f, prompt)

/-- `loadAgent`, with the digest. -/
def agentDefinition (filePath : JsString) (scope : AgentScope) (f : Frontmatter) (prompt : List Char)
    (source sha256 : JsString) : Except LoadError AgentDefinition := do
  let allowedModels ← admittedModels filePath f
  return {
    name := f.name
    displayName := f.name
    prompt := units prompt
    scope := scope
    source := source
    sha256 := sha256
    defaultModel := f.model
    allowedModels := allowedModels
    tools := f.tools
    preloadSkills := f.preloadSkills
    contextScopes := f.contextScopes
    workspaceModes := f.workspaceModes
    limitCeiling := f.limits
    memoryCeilingBytes := f.memoryBytes.getD minMemoryBytes }

/-- A discovered definition, with its file, the files its digest read and the moment its content was
read. -/
structure Discovered where
  definition : AgentDefinition
  filePath : JsString
  readings : List Reading
  contentAt : ℕ

/-- `loadAgent`. -/
def loadAgent (S : Sha256) (w : Schedule) (P : FrontmatterReader) (filePath : JsString)
    (scope : AgentScope) : Load Discovered := do
  let contentAt ← moment
  let bytes ← call w (·.readFile filePath)
  let (f, prompt) ← lift (readFrontmatter P filePath (utf8 bytes))
  let digest ← digestFileResource S w filePath defaultLimits
  let definition ← lift
    (agentDefinition filePath scope f prompt digest.canonicalPath digest.sha256)
  return ⟨definition, filePath, digest.readings, contentAt⟩

/-- The text of a scope. -/
def scopeText : AgentScope → String
  | .builtin => "builtin"
  | .package => "package"
  | .global => "global"
  | .project => "project"

/-- `priorities`. -/
def priority : AgentScope → ℕ
  | .builtin => 0
  | .package => 1
  | .global => 2
  | .project => 3

/-- The definitions of one directory. -/
def discoverEntries (S : Sha256) (w : Schedule) (P : FrontmatterReader) (source : AgentSource) :
    List JsString → List (JsString × Discovered) → List (AgentScope × JsString) →
      Load (List (JsString × Discovered) × List (AgentScope × JsString))
  | [], selected, identities => pure (selected, identities)
  | entry :: entries, selected, identities => do
    let agent ← loadAgent S w P (PosixPath.join source.directory entry) source.scope
    let name := agent.definition.name
    throwIf ((source.scope, name) ∈ identities)
      (.agent (ofString "duplicate agent in scope: " ++ ofString (scopeText source.scope) ++
        ofString ":" ++ name))
    discoverEntries S w P source entries (OrderedMap.set name agent selected)
      ((source.scope, name) :: identities)

/-- `readdir`, of a directory that may be missing. -/
def readDirectory (w : Schedule) (directory : JsString) : Load (List JsString) := fun t =>
  match (w t).readdir directory with
  | .ok names => .ok (sortBy id (names.filter fun name => (ofString ".md").isSuffixOf name), t + 1)
  | .error .enoent => .ok ([], t + 1)
  | .error .other => .error (.system .other)

/-- `discoverAgents`, over sources in the order of their priorities. -/
def discoverSources (S : Sha256) (w : Schedule) (P : FrontmatterReader) :
    List AgentSource → List (JsString × Discovered) → List (AgentScope × JsString) →
      Load (List (JsString × Discovered))
  | [], selected, _ => pure selected
  | source :: sources, selected, identities => do
    throwIf (source.scope = .project ∧ source.trusted = false)
      (agentError "project agent source is not trusted")
    let entries ← readDirectory w source.directory
    let (selected, identities) ← discoverEntries S w P source entries selected identities
    discoverSources S w P sources selected identities

/-- `discoverAgents`. -/
def discoverAgents (S : Sha256) (w : Schedule) (P : FrontmatterReader) (sources : List AgentSource) :
    Load (List (JsString × Discovered)) :=
  discoverSources S w P
    (sources.insertionSort fun a b => priority a.scope ≤ priority b.scope) [] []

/-- The definition that a file with this content has. -/
def parseAgent (P : FrontmatterReader) (filePath : JsString) (scope : AgentScope)
    (content : List Char) (source sha256 : JsString) : Except LoadError AgentDefinition := do
  let (f, prompt) ← readFrontmatter P filePath content
  agentDefinition filePath scope f prompt source sha256

/-- The definition is parsed from bytes that its digest names. -/
def Discovered.Named (S : Sha256) (P : FrontmatterReader) (d : Discovered) : Prop :=
  ∃ bytes, S.digest bytes = d.definition.sha256 ∧
    parseAgent P d.filePath d.definition.scope (utf8 bytes) d.definition.source d.definition.sha256 =
      .ok d.definition

/-- When the digest was computed, the file had a content with the definition that was read before. -/
def Discovered.Steady (w : Schedule) (P : FrontmatterReader) (d : Discovered) : Prop :=
  ∃ r ∈ d.readings, ∃ digested read, (w r.at_).readFile r.path = .ok digested ∧
    (w d.contentAt).readFile d.filePath = .ok read ∧
      parseAgent P d.filePath d.definition.scope (utf8 digested) d.definition.source
          d.definition.sha256 =
        parseAgent P d.filePath d.definition.scope (utf8 read) d.definition.source
          d.definition.sha256

/-! ## The bytes of a text -/

theorem encode_byteOrderMark (text : List Char) :
    Utf8.encode (byteOrderMark :: text) = 0xEF :: 0xBB :: 0xBF :: Utf8.encode text := by
  rw [Utf8.encode_cons]
  rfl

theorem stripMark_of_ne {bytes : List UInt8}
    (h : ∀ rest, bytes ≠ 0xEF :: 0xBB :: 0xBF :: rest) : stripMark bytes = bytes := by
  unfold stripMark
  split
  · next rest => exact absurd rfl (h rest)
  · rfl

/-- **A fatal decoder keeps all bytes** but a byte order mark at the beginning. -/
theorem encode_fatalDecode {bytes : List UInt8} {content : List Char}
    (h : fatalDecode bytes = some content) : Utf8.encode content = stripMark bytes := by
  rw [fatalDecode] at h
  obtain ⟨he, h⟩ := Option.ite_none_right_eq_some.mp h
  cases hd : Utf8.decode bytes with
  | nil =>
    rw [hd] at h he
    cases h
    rw [← he]
    rfl
  | cons c text =>
    rw [hd] at h he
    by_cases hc : c = byteOrderMark
    · simp only [hc, if_true, Option.some.injEq] at h
      rw [← he, hc, encode_byteOrderMark, ← h]
      rfl
    · simp only [hc, if_false, Option.some.injEq] at h
      rw [← h, he, stripMark_of_ne]
      rintro rest rfl
      refine hc ?_
      have hmark := Utf8.decode_encode_append [byteOrderMark] rest
      have hbytes : Utf8.encode [byteOrderMark] ++ rest = 0xEF :: 0xBB :: 0xBF :: rest := by
        rw [encode_byteOrderMark]
        rfl
      rw [hbytes, hd] at hmark
      exact (List.cons.inj hmark).1

/-! ## Context files -/

variable {S : Sha256} {w : Schedule}

/-- What the loop knows of a file it has projected. -/
def Projected.Read (S : Sha256) (w : Schedule) (f : Projected) : Prop :=
  ∃ at_ digested read, f.readings = [⟨[], f.hostFilePath, at_⟩] ∧
    (w at_).readFile f.hostFilePath = .ok digested ∧ f.grant.sha256 = S.digest digested ∧
    (w f.contentAt).readFile f.hostFilePath = .ok read ∧ fatalDecode read = some f.content

theorem Projected.Read.named_iff {f : Projected} (h : f.Read S w) : f.Named S ↔ f.Steady w := by
  obtain ⟨at_, digested, read, hr, hd, hsha, hread, hdecode⟩ := h
  rw [Projected.Named, hsha, S.injective.eq_iff, encode_fatalDecode hdecode]
  constructor
  · intro he
    exact ⟨⟨[], f.hostFilePath, at_⟩, hr ▸ List.mem_cons_self, digested, read, hd, hread, he.symm⟩
  · rintro ⟨r, hmem, b, b', hb, hb', he⟩
    rw [hr, List.mem_singleton] at hmem
    subst hmem
    rw [hd] at hb
    rw [hread] at hb'
    cases hb
    cases hb'
    exact he.symm

theorem projectContextFiles_read (selected : List (ContextScope × JsString)) {index totalBytes t u : ℕ}
    {files files' : List Projected} (hf : ∀ f ∈ files, f.Read S w)
    (h : projectContextFiles S w selected index totalBytes files t = .ok (files', u)) :
    ∀ f ∈ files', f.Read S w := by
  induction selected generalizing index totalBytes files t with
  | nil =>
    obtain ⟨rfl, -⟩ := pure_ok.mp h
    exact hf
  | cons selectedFile selected ih =>
    obtain ⟨scope, path⟩ := selectedFile
    obtain ⟨digest, t₁, hdigest, h⟩ := bind_ok.mp h
    obtain ⟨contentAt, t₂, hm, h⟩ := bind_ok.mp h
    obtain ⟨bytes, t₃, hc, h⟩ := bind_ok.mp h
    cases hdecode : fatalDecode bytes with
    | none =>
      simp only [hdecode] at h
      exact nomatch (lift_ok.mp h).1
    | some content =>
      simp only [hdecode] at h
      obtain ⟨_, t₄, _, h⟩ := bind_ok.mp h
      obtain ⟨hat, hs⟩ := moment_ok.mp hm
      have hread := (call_ok.mp hc).1
      rw [hs, ← hat] at hread
      obtain ⟨at_, digested, hd, hsha, hr⟩ := digestFileResource_ok hdigest
      refine ih (fun f hmem => ?_) h
      rcases List.mem_append.mp hmem with hmem | hmem
      · exact hf f hmem
      · obtain rfl := List.mem_singleton.mp hmem
        exact ⟨at_, digested, bytes, hr, hd, hsha, hread, hdecode⟩

theorem discoverAndProjectContextFiles_read {load : Load (List JsString)} {options : ContextOptions}
    {t u : ℕ} {files : List Projected}
    (h : discoverAndProjectContextFiles S w load options t = .ok (files, u)) :
    ∀ f ∈ files, f.Read S w := by
  rw [discoverAndProjectContextFiles] at h
  split at h
  · obtain ⟨rfl, -⟩ := pure_ok.mp h
    exact fun f hf => absurd hf List.not_mem_nil
  · obtain ⟨_, t₁, _, h⟩ := bind_ok.mp h
    obtain ⟨canonicalAgentDir, t₂, _, h⟩ := bind_ok.mp h
    obtain ⟨canonicalWorkspaceRoot, t₃, _, h⟩ := bind_ok.mp h
    obtain ⟨discovered, t₄, _, h⟩ := bind_ok.mp h
    obtain ⟨selected, t₅, _, h⟩ := bind_ok.mp h
    obtain ⟨_, t₆, _, h⟩ := bind_ok.mp h
    exact projectContextFiles_read selected (fun f hf => absurd hf List.not_mem_nil) h

/-! ## Skills -/

/-- What the catalog knows of a skill. -/
def DatedSkill.Read (S : Sha256) (w : Schedule) (skill : DatedSkill) : Prop :=
  ∃ entries, Canonical.canonicalSha256 S.digest (listing entries) = .ok skill.sha256 ∧
    ∀ path digest, HasFile entries path digest ↔ ∃ r ∈ skill.readings, Resources.Read S w r path digest

/-- What the loop knows of a skill it has preloaded. -/
def Preload.Read (S : Sha256) (w : Schedule) (p : Preload) : Prop :=
  p.skill.Read S w ∧ ∃ read, (w p.contentAt).readFile p.skill.hostFilePath = .ok read ∧
    p.content = utf8 read

theorem Preload.Read.named_iff {p : Preload} (h : p.Read S w) : p.Named S ↔ p.Steady w := by
  obtain ⟨⟨entries, hsha, hfiles⟩, read, hread, hcontent⟩ := h
  constructor
  · rintro ⟨entries', bytes, hsha', hfile, htext⟩
    obtain ⟨r, hr, hname, digested, hd, he⟩ :=
      (hfiles _ _).mp (listing_files S hsha' hsha hfile)
    refine ⟨r, hr, hname, digested, read, hd, hread, ?_⟩
    rw [← S.injective he, ← htext, hcontent]
  · rintro ⟨r, hr, hname, digested, read', hd, hread', he⟩
    rw [hread] at hread'
    cases hread'
    exact ⟨entries, digested, hsha, (hfiles _ _).mpr ⟨r, hr, hname, digested, hd, rfl⟩,
      hcontent.trans he.symm⟩

theorem projectSkills_read (depth : ℕ) (skills : List Skill) {names : List JsString}
    {catalog catalog' : List DatedSkill} {t u : ℕ} (hc : ∀ skill ∈ catalog, skill.Read S w)
    (h : projectSkills S w depth skills names catalog t = .ok (catalog', u)) :
    ∀ skill ∈ catalog', skill.Read S w := by
  induction skills generalizing names catalog t with
  | nil =>
    obtain ⟨rfl, -⟩ := pure_ok.mp h
    exact hc
  | cons skill skills ih =>
    obtain ⟨_, t₁, _, h⟩ := bind_ok.mp h
    obtain ⟨_, t₂, _, h⟩ := bind_ok.mp h
    obtain ⟨hostBaseDir, t₃, _, h⟩ := bind_ok.mp h
    obtain ⟨hostFilePath, t₄, _, h⟩ := bind_ok.mp h
    obtain ⟨_, t₅, _, h⟩ := bind_ok.mp h
    obtain ⟨⟨digest, entries⟩, t₆, hd, h⟩ := bind_ok.mp h
    refine ih (fun s hs => ?_) h
    rcases List.mem_append.mp hs with hs | hs
    · exact hc s hs
    · obtain rfl := List.mem_singleton.mp hs
      exact ⟨entries, digestTreeResource_ok hd⟩

theorem preloadSkills_read {catalog : List DatedSkill} (hc : ∀ skill ∈ catalog, skill.Read S w)
    (names : List JsString) {preloadBytes : ℕ} {preloads preloads' : List Preload} {t u : ℕ}
    (hp : ∀ p ∈ preloads, p.Read S w ∧ p.skill ∈ catalog)
    (h : preloadSkills w catalog names preloadBytes preloads t = .ok (preloads', u)) :
    ∀ p ∈ preloads', p.Read S w ∧ p.skill ∈ catalog := by
  induction names generalizing preloadBytes preloads t with
  | nil =>
    obtain ⟨rfl, -⟩ := pure_ok.mp h
    exact hp
  | cons name names ih =>
    rw [preloadSkills] at h
    cases hfind : catalog.find? fun skill => skill.name = name with
    | none =>
      simp only [hfind] at h
      exact nomatch (lift_ok.mp h).1
    | some skill =>
      simp only [hfind] at h
      obtain ⟨contentAt, t₁, hm, h⟩ := bind_ok.mp h
      obtain ⟨bytes, t₂, hb, h⟩ := bind_ok.mp h
      obtain ⟨_, t₃, _, h⟩ := bind_ok.mp h
      obtain ⟨hat, hs⟩ := moment_ok.mp hm
      have hread := (call_ok.mp hb).1
      rw [hs, ← hat] at hread
      refine ih (fun p hmem => ?_) h
      rcases List.mem_append.mp hmem with hmem | hmem
      · exact hp p hmem
      · obtain rfl := List.mem_singleton.mp hmem
        have hmem := List.mem_of_find?_eq_some hfind
        exact ⟨⟨hc skill hmem, bytes, hread, rfl⟩, hmem⟩

theorem discoverAndProjectSkills_read {depth : ℕ} {getSkills : Load (List Skill)}
    {preload : List JsString} {t u : ℕ} {projection : SkillProjection}
    (h : discoverAndProjectSkills S w depth getSkills preload t = .ok (projection, u)) :
    (∀ p ∈ projection.preloads, p.Read S w) ∧
      (∀ p ∈ projection.preloads, p.skill ∈ projection.catalog) ∧
      projection.preloadPrompt = promptOf projection.preloads := by
  obtain ⟨discovered, t₁, _, h⟩ := bind_ok.mp h
  obtain ⟨skills, t₂, hskills, h⟩ := bind_ok.mp h
  obtain ⟨preloads, t₃, hpreloads, h⟩ := bind_ok.mp h
  obtain ⟨rfl, -⟩ := pure_ok.mp h
  have hread := projectSkills_read depth discovered (fun s hs => absurd hs List.not_mem_nil) hskills
  have hcatalog : ∀ s ∈ sortBy (·.name) skills, s.Read S w :=
    fun s hs => hread s ((mem_sortBy _ _ _).mp hs)
  have hp := preloadSkills_read hcatalog _ (fun p hp => absurd hp List.not_mem_nil) hpreloads
  exact ⟨fun p hm => (hp p hm).1, fun p hm => (hp p hm).2, rfl⟩

/-! ## Agent definitions -/

variable {P : FrontmatterReader}

/-- What the loader knows of a definition. -/
def Discovered.Read (S : Sha256) (w : Schedule) (P : FrontmatterReader) (d : Discovered) : Prop :=
  ∃ at_ digested read, d.readings = [⟨[], d.definition.source, at_⟩] ∧
    (w at_).readFile d.definition.source = .ok digested ∧
    d.definition.sha256 = S.digest digested ∧ (w d.contentAt).readFile d.filePath = .ok read ∧
    parseAgent P d.filePath d.definition.scope (utf8 read) d.definition.source d.definition.sha256 =
      .ok d.definition

theorem Discovered.Read.named_iff {d : Discovered} (h : d.Read S w P) :
    d.Named S P ↔ d.Steady w P := by
  obtain ⟨at_, digested, read, hr, hd, hsha, hread, hparse⟩ := h
  constructor
  · rintro ⟨bytes, hbytes, hnamed⟩
    have he : bytes = digested := S.injective (hbytes.trans hsha)
    exact ⟨⟨[], d.definition.source, at_⟩, hr ▸ List.mem_cons_self, digested, read, hd, hread,
      he ▸ hnamed.trans hparse.symm⟩
  · rintro ⟨r, hmem, b, b', hb, hb', he⟩
    rw [hr, List.mem_singleton] at hmem
    subst hmem
    rw [hd] at hb
    rw [hread] at hb'
    cases hb
    cases hb'
    exact ⟨digested, hsha.symm, he.trans hparse⟩

theorem agentDefinition_ok {filePath source sha256 : JsString} {scope : AgentScope} {f : Frontmatter}
    {prompt : List Char} {a : AgentDefinition}
    (h : agentDefinition filePath scope f prompt source sha256 = .ok a) :
    a.scope = scope ∧ a.source = source ∧ a.sha256 = sha256 := by
  obtain ⟨models, _, h⟩ := Preflight.bind_eq_ok.mp h
  cases h
  exact ⟨rfl, rfl, rfl⟩

theorem loadAgent_read {filePath : JsString} {scope : AgentScope} {d : Discovered} {t u : ℕ}
    (h : loadAgent S w P filePath scope t = .ok (d, u)) : d.Read S w P := by
  obtain ⟨contentAt, t₁, hm, h⟩ := bind_ok.mp h
  obtain ⟨bytes, t₂, hb, h⟩ := bind_ok.mp h
  obtain ⟨⟨f, prompt⟩, t₃, hf, h⟩ := bind_ok.mp h
  obtain ⟨digest, t₄, hdigest, h⟩ := bind_ok.mp h
  obtain ⟨a, t₅, ha, h⟩ := bind_ok.mp h
  obtain ⟨rfl, -⟩ := pure_ok.mp h
  obtain ⟨hat, hs⟩ := moment_ok.mp hm
  have hread := (call_ok.mp hb).1
  rw [hs, ← hat] at hread
  have hfront := (lift_ok.mp hf).1
  have hdef := (lift_ok.mp ha).1
  obtain ⟨hscope, hsource, hsha⟩ := agentDefinition_ok hdef
  obtain ⟨at_, digested, hd, hdsha, hr⟩ := digestFileResource_ok hdigest
  refine ⟨at_, digested, bytes, ?_, ?_, hsha.trans hdsha, hread, ?_⟩
  · change digest.readings = [⟨[], a.source, at_⟩]
    rw [hr, hsource]
  · change (w at_).readFile a.source = .ok digested
    rw [hsource]
    exact hd
  · change parseAgent P filePath a.scope (utf8 bytes) a.source a.sha256 = .ok a
    rw [hscope, hsource, hsha, parseAgent, hfront]
    exact hdef

theorem discoverEntries_read {source : AgentSource} (entries : List JsString)
    {selected selected' : List (JsString × Discovered)}
    {identities identities' : List (AgentScope × JsString)} {t u : ℕ}
    (hs : ∀ m ∈ selected, m.2.Read S w P)
    (h : discoverEntries S w P source entries selected identities t =
      .ok ((selected', identities'), u)) : ∀ m ∈ selected', m.2.Read S w P := by
  induction entries generalizing selected identities t with
  | nil =>
    obtain ⟨he, -⟩ := pure_ok.mp h
    cases he
    exact hs
  | cons entry entries ih =>
    obtain ⟨agent, t₁, ha, h⟩ := bind_ok.mp h
    obtain ⟨_, t₂, _, h⟩ := bind_ok.mp h
    refine ih (fun m hm => ?_) h
    rcases OrderedMap.eq_or_mem_of_mem_set hm with rfl | hm
    · exact loadAgent_read ha
    · exact hs m hm

theorem discoverSources_read (sources : List AgentSource)
    {selected selected' : List (JsString × Discovered)}
    {identities : List (AgentScope × JsString)} {t u : ℕ} (hs : ∀ m ∈ selected, m.2.Read S w P)
    (h : discoverSources S w P sources selected identities t = .ok (selected', u)) :
    ∀ m ∈ selected', m.2.Read S w P := by
  induction sources generalizing selected identities t with
  | nil =>
    obtain ⟨rfl, -⟩ := pure_ok.mp h
    exact hs
  | cons source sources ih =>
    obtain ⟨_, t₁, _, h⟩ := bind_ok.mp h
    obtain ⟨entries, t₂, _, h⟩ := bind_ok.mp h
    obtain ⟨⟨selected₁, identities₁⟩, t₃, he, h⟩ := bind_ok.mp h
    exact ih (discoverEntries_read entries hs he) h

/-! ## Provenance -/

/-- Every context file that is projected has the content its grant names. -/
def ContextProvenance (S : Sha256) (w : Schedule) (load : Load (List JsString))
    (options : ContextOptions) : Prop :=
  ∀ t files u, discoverAndProjectContextFiles S w load options t = .ok (files, u) →
    ∀ f ∈ files, f.Named S

/-- The reads of every context file are steady. -/
def ContextSteady (S : Sha256) (w : Schedule) (load : Load (List JsString))
    (options : ContextOptions) : Prop :=
  ∀ t files u, discoverAndProjectContextFiles S w load options t = .ok (files, u) →
    ∀ f ∈ files, f.Steady w

/-- The preload prompt is made of texts that belong to the trees named in the catalog. -/
def SkillProvenance (S : Sha256) (w : Schedule) (depth : ℕ) (getSkills : Load (List Skill))
    (preload : List JsString) : Prop :=
  ∀ t projection u,
    discoverAndProjectSkills S w depth getSkills preload t = .ok (projection, u) →
      projection.preloadPrompt = promptOf projection.preloads ∧
        ∀ p ∈ projection.preloads, p.skill ∈ projection.catalog ∧ p.Named S

/-- The reads of every preloaded skill are steady. -/
def SkillSteady (S : Sha256) (w : Schedule) (depth : ℕ) (getSkills : Load (List Skill))
    (preload : List JsString) : Prop :=
  ∀ t projection u,
    discoverAndProjectSkills S w depth getSkills preload t = .ok (projection, u) →
      ∀ p ∈ projection.preloads, p.Steady w

/-- Every definition that is discovered is parsed from bytes its digest names. -/
def AgentProvenance (S : Sha256) (w : Schedule) (P : FrontmatterReader) (sources : List AgentSource) :
    Prop :=
  ∀ t selected u, discoverAgents S w P sources t = .ok (selected, u) →
    ∀ m ∈ selected, m.2.Named S P

/-- The reads of every definition are steady. -/
def AgentSteady (S : Sha256) (w : Schedule) (P : FrontmatterReader) (sources : List AgentSource) :
    Prop :=
  ∀ t selected u, discoverAgents S w P sources t = .ok (selected, u) →
    ∀ m ∈ selected, m.2.Steady w P

theorem contextProvenance_iff {load : Load (List JsString)} {options : ContextOptions} :
    ContextProvenance S w load options ↔ ContextSteady S w load options := by
  refine forall_congr' fun t => forall_congr' fun files => forall_congr' fun u =>
    forall_congr' fun h => forall₂_congr fun f hf => ?_
  exact (discoverAndProjectContextFiles_read h f hf).named_iff

/-- **Provenance.** For every schedule of the files: the content that a loader hands on is what its
digest names exactly when the reads for the digest and for the content are steady. -/
theorem provenance_iff (S : Sha256) (w : Schedule) (load : Load (List JsString))
    (options : ContextOptions) (depth : ℕ) (getSkills : Load (List Skill)) (preload : List JsString)
    (P : FrontmatterReader) (sources : List AgentSource) :
    (ContextProvenance S w load options ↔ ContextSteady S w load options) ∧
    (SkillProvenance S w depth getSkills preload ↔ SkillSteady S w depth getSkills preload) ∧
    (AgentProvenance S w P sources ↔ AgentSteady S w P sources) := by
  refine ⟨contextProvenance_iff, ?_, ?_⟩
  · refine forall_congr' fun t => forall_congr' fun projection => forall_congr' fun u =>
      forall_congr' fun h => ?_
    obtain ⟨hread, hcatalog, hprompt⟩ := discoverAndProjectSkills_read h
    rw [and_iff_right hprompt]
    refine forall₂_congr fun p hp => ?_
    rw [and_iff_right (hcatalog p hp)]
    exact (hread p hp).named_iff
  · refine forall_congr' fun t => forall_congr' fun selected => forall_congr' fun u =>
      forall_congr' fun h => forall₂_congr fun m hm => ?_
    exact (discoverSources_read _ (fun m hm => absurd hm List.not_mem_nil) h m hm).named_iff

/-! ## A file that is rewritten between its two reads -/

/-- The context file of a repository. -/
def contextPath : JsString := ofString "/repo/AGENTS.md"

/-- A repository and the directory of the agent, with a context file of this content. -/
def repository (content : List UInt8) : Files where
  realpath path :=
    if path ∈ [contextPath, ofString "/repo", ofString "/agent"] then .ok path else .error .enoent
  lstat path :=
    if path = contextPath then .ok ⟨.file, content.length, false⟩
    else if path ∈ [ofString "/repo", ofString "/agent"] then .ok ⟨.directory, 0, false⟩
    else .error .enoent
  readdir path := if path = ofString "/repo" then .ok [ofString "AGENTS.md"] else .error .enoent
  readFile path := if path = contextPath then .ok content else .error .enoent

/-- The file is rewritten after its digest was computed. -/
def rewritten : Schedule := fun t => repository (if t < 8 then [97] else [98])

/-- The context files of a trusted project. -/
def projectContext : ContextOptions where
  workspaceRoot := ofString "/repo"
  agentDir := ofString "/agent"
  projectTrusted := true
  scopes := [.project]
  processCwd := ofString "/repo"

theorem rewritten_run (S : Sha256) : ∃ f u,
    discoverAndProjectContextFiles S rewritten (pure [contextPath]) projectContext 0 = .ok ([f], u) ∧
      f.content = ['b'] ∧ f.grant.sha256 = S.digest [97] :=
  ⟨_, _, rfl, rfl, rfl⟩

/-- **The digest names another content.** -/
theorem context_rewritten : ¬ ∃ S : Sha256,
    ContextProvenance S rewritten (pure [contextPath]) projectContext := by
  rintro ⟨S, h⟩
  obtain ⟨f, u, hrun, hcontent, hsha⟩ := rewritten_run S
  have hnamed : S.digest (Utf8.encode f.content) = f.grant.sha256 :=
    h 0 [f] u hrun f List.mem_cons_self
  rw [hcontent, hsha] at hnamed
  exact absurd (S.injective hnamed) (by decide)

set_option maxRecDepth 4000 in
/-- A byte order mark is digested and not handed on, though nothing writes the file. -/
theorem context_marked : ¬ ∃ S : Sha256, ContextProvenance S
    (fun _ => repository [0xEF, 0xBB, 0xBF, 97]) (pure [contextPath]) projectContext := by
  rintro ⟨S, h⟩
  obtain ⟨f, u, hrun, hcontent, hsha⟩ : ∃ f u,
      discoverAndProjectContextFiles S (fun _ => repository [0xEF, 0xBB, 0xBF, 97])
          (pure [contextPath]) projectContext 0 = .ok ([f], u) ∧
        f.content = ['a'] ∧ f.grant.sha256 = S.digest [0xEF, 0xBB, 0xBF, 97] :=
    ⟨_, _, rfl, rfl, rfl⟩
  have hnamed : S.digest (Utf8.encode f.content) = f.grant.sha256 :=
    h 0 [f] u hrun f List.mem_cons_self
  rw [hcontent, hsha] at hnamed
  exact absurd (S.injective hnamed) (by decide)

end Preflight.Provenance

end PiSubagent
