import Agorabus.Reload
import Mathlib.Data.List.DropRight
import Mathlib.Logic.Function.Basic

namespace Agorabus.Reload

def pieces (path : String) : List (List Char) := path.toList.splitOn '/'

def isBlankPiece (piece : List Char) : Bool := piece = [] || piece = ['.']

def entry (path : String) : Bool × List (List Char) :=
  (path.toList.head? = some '/', (pieces path).filter (fun p => !isBlankPiece p))

/-- The first piece is the root, or a component. -/
def trimPieces : List (List Char) → List (List Char)
  | [] => []
  | first :: rest => first :: rest.rdropWhile isBlankPiece

def renderPieces (ps : List (List Char)) : String :=
  if ps = [[]] then "/" else String.ofList (['/'].intercalate ps)

def parent (path : String) : Option String :=
  match trimPieces (pieces path) with
  | [] => none
  | [first] => if first = [] then none else some ""
  | first :: rest => some (renderPieces (trimPieces (first :: rest.dropLast)))

example : ["/usr/bin/agorabus", "/agorabus", "agorabus", "/", "./bin//agorabus/"].map parent =
    [some "/usr/bin", some "/", some "", none, some "./bin"] := by decide

structure Node where
  bytes : List UInt8
  mode : Nat
  deriving DecidableEq

def Node.executable (n : Node) : Node := { n with mode := n.mode ||| 0o111 }

abbrev Files := Bool × List (List Char) → Option Node

/-- The files before and after the build script has run, how it ends, and how each step of an
install ends; a copy that fails may leave anything under the name of the copy. -/
structure Machine where
  files : Files
  spawnBuild : Except String (Option Int)
  built : Files
  copy : Except (String × Option Node) Unit
  stat : Except String Unit
  chmod : Except String Unit
  rename : Except String Unit
  removed : Bool

def locateCloudbuildArtifact (home : Option String) (files : Files) : Except String String :=
  match home with
  | none => .error "$HOME not set"
  | some home =>
    let base := join home "wintermute/agorabus/target"
    let candidates := [join base "release/agorabus",
      join base "x86_64-unknown-linux-gnu/release/agorabus", join base "debug/agorabus"]
    match candidates.find? (fun c => (files (entry c)).isSome) with
    | some c => .ok c
    | none => .error ("could not find agorabus artifact under " ++ base ++
        "; cloudbuild may not have rsynced yet")

def exitText : Option Int → String
  | none => "None"
  | some code => "Some(" ++ toString code ++ ")"

def buildArtifact (m : Machine) (home : Option String) (cloudbuild installDest : String) :
    Except String (String × String) × Files :=
  if (m.files (entry cloudbuild)).isNone then
    (.error ("cloudbuild.sh not found at " ++ cloudbuild ++
      "; set AGORABUS_CLOUDBUILD or install the skill"), m.files)
  else
    match m.spawnBuild with
    | .error e => (.error ("failed to spawn cloudbuild.sh: " ++ e), m.files)
    | .ok code =>
      if code ≠ some 0 then
        (.error ("cloudbuild.sh build agorabus failed (exit " ++ exitText code ++
          "); aborting reload — running daemon is unchanged"), m.built)
      else
        match locateCloudbuildArtifact home m.built, parent installDest with
        | .error e, _ => (.error e, m.built)
        | .ok _, none =>
            (.error ("install_dest " ++ installDest ++ " has no parent directory"), m.built)
        | .ok artifact, some dir => (.ok (artifact, dir), m.built)

/-- Copy the artifact next to the destination, and rename the copy over it. -/
def installArtifact (m : Machine) (artifact tmpDest installDest : String) :
    Except String Unit × Files :=
  match m.copy with
  | .error (e, left) =>
      (.error ("failed to copy artifact " ++ artifact ++ " → " ++ tmpDest ++ ": " ++ e),
        Function.update m.built (entry tmpDest) left)
  | .ok () =>
    let copied := Function.update m.built (entry tmpDest) (m.built (entry artifact))
    match m.stat, m.chmod with
    | .error e, _ => (.error ("stat " ++ tmpDest ++ ": " ++ e), copied)
    | .ok (), .error e => (.error ("chmod " ++ tmpDest ++ ": " ++ e), copied)
    | .ok (), .ok () =>
      let node := (m.built (entry artifact)).map Node.executable
      let ready := Function.update copied (entry tmpDest) node
      match m.rename with
      | .error e => (.error ("failed to rename " ++ tmpDest ++ " → " ++ installDest ++ ": " ++ e),
          if m.removed then Function.update ready (entry tmpDest) none else ready)
      | .ok () => (.ok (),
          Function.update (Function.update ready (entry tmpDest) none) (entry installDest) node)

def installTmp (pid : Nat) (dir : String) : String :=
  join dir (".agorabus-install-tmp-" ++ toString pid)

def runCloudbuildAndInstall (m : Machine) (pid : Nat) (home : Option String)
    (cloudbuild installDest : String) : Except String Unit × Files :=
  match buildArtifact m home cloudbuild installDest with
  | (.error e, files) => (.error e, files)
  | (.ok (artifact, dir), _) => installArtifact m artifact (installTmp pid dir) installDest

def Machine.environment (m : Machine) (env : Environment) : Environment :=
  { env with cloudbuildAndInstall := fun cloudbuild dest =>
      (runCloudbuildAndInstall m env.pid env.home cloudbuild dest).1 }

def Machine.leaves (m : Machine) (artifact : String) : Option (Option Node) :=
  match m.copy, m.stat, m.chmod, m.rename with
  | .error (_, left), _, _, _ => some left
  | .ok (), .error _, _, _ | .ok (), .ok (), .error _, _ => some (m.built (entry artifact))
  | .ok (), .ok (), .ok (), .error _ =>
      some (if m.removed then none else (m.built (entry artifact)).map Node.executable)
  | .ok (), .ok (), .ok (), .ok () => none

variable {m : Machine} {artifact tmpDest installDest : String} {files : Files}

theorem installArtifact_cases (m : Machine) (artifact tmpDest installDest : String) :
    (m.leaves artifact = none ∧ (installArtifact m artifact tmpDest installDest).1 = .ok () ∧
      (installArtifact m artifact tmpDest installDest).2 (entry installDest) =
        (m.built (entry artifact)).map Node.executable) ∨
    ∃ left e, m.leaves artifact = some left ∧
      installArtifact m artifact tmpDest installDest =
        (.error e, Function.update m.built (entry tmpDest) left) := by
  obtain ⟨_, _, _, copy, stat, chmod, rename, removed⟩ := m
  cases copy with
  | error c => exact Or.inr ⟨c.2, _, rfl, rfl⟩
  | ok =>
    cases stat with
    | error e => exact Or.inr ⟨_, _, rfl, rfl⟩
    | ok =>
      cases chmod with
      | error e => exact Or.inr ⟨_, _, rfl, rfl⟩
      | ok =>
        cases rename with
        | ok => exact Or.inl ⟨rfl, rfl, Function.update_self ..⟩
        | error e =>
          refine Or.inr ⟨_, "failed to rename " ++ tmpDest ++ " → " ++ installDest ++ ": " ++ e,
            rfl, ?_⟩
          simp only [installArtifact, Function.update_idem]
          cases removed <;> rfl

theorem buildArtifact_files (m : Machine) (home : Option String) (cloudbuild installDest : String) :
    (buildArtifact m home cloudbuild installDest).2 = m.files ∨
      (buildArtifact m home cloudbuild installDest).2 = m.built := by
  rw [buildArtifact]
  split
  · exact Or.inl rfl
  · split
    · exact Or.inl rfl
    · split
      · exact Or.inr rfl
      · split <;> exact Or.inr rfl

theorem buildArtifact_located {home : Option String} {cloudbuild dir : String}
    (h : (buildArtifact m home cloudbuild installDest).1 = .ok (artifact, dir)) :
    locateCloudbuildArtifact home m.built = .ok artifact := by
  rw [buildArtifact] at h
  split at h
  · cases h
  · split at h
    · cases h
    · split at h
      · cases h
      · split at h
        · cases h
        · cases h
        · rename_i hlocated _
          cases h
          exact hlocated

end Agorabus.Reload
