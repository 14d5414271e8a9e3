import AirShifter.Security
import AirShifter.SecurityRun
import AirShifter.SessionMap
import AirShifter.AuthSoundness
import AirShifter.BizLogix
import AirShifter.Jsmn
import AirShifter.Parser
import AirShifter.FlatJson
import AirShifter.LegacyText
import AirShifter.FlatMeaning
import AirShifter.WifiManager
import AirShifter.Provisioning
import AirShifter.CutPacket
import AirShifter.ControlFormats
import AirShifter.GattServer
import AirShifter.Challenge
import AirShifter.Registers
import AirShifter.CredentialQueue
import AirShifter.LongCredentials
import AirShifter.AuthTable
import AirShifter.StoredCredentials
import AirShifter.CommandRange
import AirShifter.OldParser
import AirShifter.LegacyProvisioning
import AirShifter.TokenWalk
import AirShifter.StringExtractor
import AirShifter.NonceLength
import AirShifter.AuthQueries
import AirShifter.JsonDocument
import AirShifter.TokenNesting
import AirShifter.PacketText
import AirShifter.System
import AirShifter.Clients
import AirShifter.Notifications
import AirShifter.GapEvents
import AirShifter.Durability
import AirShifter.ConnHandles
import AirShifter.MeshEvents
import AirShifter.LegacyMeaning
import AirShifter.LooseText
import AirShifter.PacketMeaning
import AirShifter.Compatibility
import AirShifter.Payloads
import AirShifter.Replay
import AirShifter.GattTable
import AirShifter.KeyHolder
