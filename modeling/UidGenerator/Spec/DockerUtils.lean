import UidGenerator.Lib.Run
import UidGenerator.Spec.MysqlSqlSession
import UidGenerator.Spec.Strings

/-! `docker-utils.ts`, whose three variables are written one after the other, and
`buildWorkerNode` of `disposable-worker-id-assigner.ts`, which reads them. -/

namespace UID

abbrev Environment := String → Option String

def ENV_KEY_HOST : String := "JPAAS_HOST"
def ENV_KEY_PORT : String := "JPAAS_HTTP_PORT"
def ENV_KEY_PORT_ORIGINAL : String := "JPAAS_HOST_PORT_8080"

structure DockerUtils where
  dockerHost : String := ""
  dockerPort : String := ""
  isDocker : Bool := false
  deriving DecidableEq, Repr

def missingHostOrPort (dockerHost dockerPort : String) : Throwable :=
  .error s!"Missing host or port from env for Docker. host:{dockerHost}, port:{dockerPort}"

/-- `retrieveFromEnv`. Where it throws, host and port are already written. -/
def DockerUtils.retrieveFromEnv (d : DockerUtils) (env : Environment) :
    Except Throwable Unit × DockerUtils :=
  let dockerHost := (env ENV_KEY_HOST).getD ""
  let dockerPort := (env ENV_KEY_PORT).getD ""
  -- not found from JPAAS_HTTP_PORT, then try JPAAS_HOST_PORT_8080
  let dockerPort := if isBlank dockerPort then (env ENV_KEY_PORT_ORIGINAL).getD "" else dockerPort
  let d : DockerUtils := { d with dockerHost, dockerPort }
  let hasEnvHost := isNotBlank dockerHost
  let hasEnvPort := isNotBlank dockerPort
  if hasEnvHost && hasEnvPort then (.ok (), { d with isDocker := true })
  else if !hasEnvHost && !hasEnvPort then (.ok (), { d with isDocker := false })
  else (.error (missingHostOrPort dockerHost dockerPort), d)

inductive WorkerNodeType
  | CONTAINER
  | ACTUAL

def WorkerNodeType.value : WorkerNodeType → ℤ
  | CONTAINER => 1
  | ACTUAL => 2

/-- `buildWorkerNode`, with the local address, the launch date, a later reading of the
clock and a random number. -/
def DockerUtils.buildWorkerNode (d : DockerUtils) (localAddress : String)
    (launchDate now random : ℤ) : WorkerNodeEntity :=
  let workerNodeEntity : WorkerNodeEntity := { launchDate := some launchDate }
  if d.isDocker then
    { workerNodeEntity with
      type := WorkerNodeType.CONTAINER.value
      hostName := some d.dockerHost
      port := some d.dockerPort }
  else
    { workerNodeEntity with
      type := WorkerNodeType.ACTUAL.value
      hostName := some localAddress
      port := some s!"{now}-{random}" }

structure RetrieveCall where
  env : Environment
  outcome : Except Throwable Unit

def RetrieveStep (d : DockerUtils) (call : RetrieveCall) (d' : DockerUtils) : Prop :=
  d.retrieveFromEnv call.env = (call.outcome, d')

/-- Calls of `retrieveFromEnv` one after another, from the loading of the module on. -/
abbrev Retrieves : List RetrieveCall → DockerUtils → Prop := Transition.Run RetrieveStep {}

end UID
