import Mathlib.Data.Int.Notation

/-!
# Saved connections

The connection records of the core crate, with every setting of a cluster.

* `NewConnection`: what the modal submits; `Connection`: a row with it.
* `PortableConnection`: the part that an export file carries, and the connections made of it.
-/

namespace OffsetExplorer.Core

/-- How brokers are talked to. -/
inductive SecurityProtocol where
  | plaintext
  | ssl
  | saslPlaintext
  | saslSsl
  deriving DecidableEq

/-- `Display`. -/
def SecurityProtocol.text : SecurityProtocol → String
  | .plaintext => "PLAINTEXT"
  | .ssl => "SSL"
  | .saslPlaintext => "SASL_PLAINTEXT"
  | .saslSsl => "SASL_SSL"

/-- `FromStr`, and the names that serde reads. -/
def SecurityProtocol.ofText : String → Option SecurityProtocol
  | "PLAINTEXT" => some .plaintext
  | "SSL" => some .ssl
  | "SASL_PLAINTEXT" => some .saslPlaintext
  | "SASL_SSL" => some .saslSsl
  | _ => none

theorem SecurityProtocol.ofText_text (protocol : SecurityProtocol) : ofText protocol.text = some protocol := by
  cases protocol <;> rfl

/-- How the app logs in. -/
inductive SaslMechanism where
  | plain
  | scramSha256
  | scramSha512
  deriving DecidableEq

/-- `Display`. -/
def SaslMechanism.text : SaslMechanism → String
  | .plain => "PLAIN"
  | .scramSha256 => "SCRAM-SHA-256"
  | .scramSha512 => "SCRAM-SHA-512"

/-- `FromStr`, and the names that serde reads. -/
def SaslMechanism.ofText : String → Option SaslMechanism
  | "PLAIN" => some .plain
  | "SCRAM-SHA-256" => some .scramSha256
  | "SCRAM-SHA-512" => some .scramSha512
  | _ => none

theorem SaslMechanism.ofText_text (mechanism : SaslMechanism) : ofText mechanism.text = some mechanism := by
  cases mechanism <;> rfl

/-- The settings of a connection, secrets included. -/
structure NewConnection where
  name : String
  bootstrapServers : String
  kafkaVersion : String
  zookeeperEnabled : Bool := false
  zookeeperHost : Option String := none
  zookeeperPort : Option ℤ := none
  zookeeperChrootPath : Option String := none
  securityProtocol : SecurityProtocol := .plaintext
  saslMechanism : Option SaslMechanism := none
  saslUsername : Option String := none
  saslPassword : Option String := none
  saslOauthUrl : Option String := none
  schemaRegistryEndpoint : Option String := none
  schemaRegistryBasicAuthCredentials : Option String := none
  schemaRegistryTrustStoreLocation : Option String := none
  schemaRegistryTrustStorePassword : Option String := none
  schemaRegistryKeystoreLocation : Option String := none
  schemaRegistryKeystorePassword : Option String := none
  schemaRegistryKeystoreKeyPassword : Option String := none
  sslTruststoreLocation : Option String := none
  sslTruststorePassword : Option String := none
  sslKeystoreLocation : Option String := none
  sslKeystorePassword : Option String := none
  sslKeystoreKeyPassword : Option String := none
  allowPublishing : Bool := false
  deriving DecidableEq

/-- A row of the connections table. -/
structure Connection extends NewConnection where
  id : String
  createdAt : String
  updatedAt : String
  deriving DecidableEq

/-- What an export file has of a connection: no id, no time and no secret. -/
structure PortableConnection where
  name : String
  bootstrapServers : String
  kafkaVersion : String
  zookeeperEnabled : Bool := false
  zookeeperHost : Option String := none
  zookeeperPort : Option ℤ := none
  zookeeperChrootPath : Option String := none
  securityProtocol : SecurityProtocol := .plaintext
  saslMechanism : Option SaslMechanism := none
  saslUsername : Option String := none
  saslOauthUrl : Option String := none
  schemaRegistryEndpoint : Option String := none
  schemaRegistryTrustStoreLocation : Option String := none
  schemaRegistryKeystoreLocation : Option String := none
  sslTruststoreLocation : Option String := none
  sslKeystoreLocation : Option String := none
  deriving DecidableEq

/-- `From<&Connection>`. -/
def PortableConnection.ofConnection (connection : Connection) : PortableConnection where
  name := connection.name
  bootstrapServers := connection.bootstrapServers
  kafkaVersion := connection.kafkaVersion
  zookeeperEnabled := connection.zookeeperEnabled
  zookeeperHost := connection.zookeeperHost
  zookeeperPort := connection.zookeeperPort
  zookeeperChrootPath := connection.zookeeperChrootPath
  securityProtocol := connection.securityProtocol
  saslMechanism := connection.saslMechanism
  saslUsername := connection.saslUsername
  saslOauthUrl := connection.saslOauthUrl
  schemaRegistryEndpoint := connection.schemaRegistryEndpoint
  schemaRegistryTrustStoreLocation := connection.schemaRegistryTrustStoreLocation
  schemaRegistryKeystoreLocation := connection.schemaRegistryKeystoreLocation
  sslTruststoreLocation := connection.sslTruststoreLocation
  sslKeystoreLocation := connection.sslKeystoreLocation

/-- `From<PortableConnection>`: no secrets, and not allowed to publish. -/
def PortableConnection.toNewConnection (portable : PortableConnection) : NewConnection where
  name := portable.name
  bootstrapServers := portable.bootstrapServers
  kafkaVersion := portable.kafkaVersion
  zookeeperEnabled := portable.zookeeperEnabled
  zookeeperHost := portable.zookeeperHost
  zookeeperPort := portable.zookeeperPort
  zookeeperChrootPath := portable.zookeeperChrootPath
  securityProtocol := portable.securityProtocol
  saslMechanism := portable.saslMechanism
  saslUsername := portable.saslUsername
  saslPassword := none
  saslOauthUrl := portable.saslOauthUrl
  schemaRegistryEndpoint := portable.schemaRegistryEndpoint
  schemaRegistryBasicAuthCredentials := none
  schemaRegistryTrustStoreLocation := portable.schemaRegistryTrustStoreLocation
  schemaRegistryTrustStorePassword := none
  schemaRegistryKeystoreLocation := portable.schemaRegistryKeystoreLocation
  schemaRegistryKeystorePassword := none
  schemaRegistryKeystoreKeyPassword := none
  sslTruststoreLocation := portable.sslTruststoreLocation
  sslTruststorePassword := none
  sslKeystoreLocation := portable.sslKeystoreLocation
  sslKeystorePassword := none
  sslKeystoreKeyPassword := none
  allowPublishing := false

/-- What an export carries of a connection comes back from the connection that an import makes of it. -/
theorem ofConnection_toNewConnection (portable : PortableConnection) (id createdAt updatedAt : String) :
    PortableConnection.ofConnection
      { portable.toNewConnection with id, createdAt, updatedAt } = portable := rfl

end OffsetExplorer.Core
