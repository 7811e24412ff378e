import NinaHomekit.CommandHandler.Delivery
import NinaHomekit.CoreBridge.CoreBridge
import NinaHomekit.Perioder.LiveCheck
import NinaHomekit.Hap.SetChar
import NinaHomekit.System
import NinaHomekit.Overload
import NinaHomekit.Link
import NinaHomekit.Ownership
import NinaHomekit.Sequence
import NinaHomekit.LinkLive
import NinaHomekit.Registered
import NinaHomekit.Agreement
import NinaHomekit.Connection
import NinaHomekit.Reconnection
import NinaHomekit.TableIndex
import NinaHomekit.CoreBridge.MqttCtrl
import NinaHomekit.CommandHandler.Packet
import NinaHomekit.PendingEvents
import NinaHomekit.SwitchWrites
import NinaHomekit.PowerLoss
import NinaHomekit.HourLog
import NinaHomekit.History
import NinaHomekit.ReadFailure
import NinaHomekit.HistoryClear
import NinaHomekit.DateRing
import NinaHomekit.CurrentReports
import NinaHomekit.Queued
import NinaHomekit.MalformedLink
import NinaHomekit.BufferFit
import NinaHomekit.Topic
import NinaHomekit.ControlPaths
import NinaHomekit.Serial
import NinaHomekit.HistoryReads
import NinaHomekit.DateStrings
import NinaHomekit.DayClose
import NinaHomekit.HourAverage
import NinaHomekit.Perioder.Whole
import NinaHomekit.ConfigRestart
import NinaHomekit.Served
import NinaHomekit.Hap.PutBytes
import NinaHomekit.Hap.Tlv
import NinaHomekit.Hap.Sessions
import NinaHomekit.Hap.Sends
