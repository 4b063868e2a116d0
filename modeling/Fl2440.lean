import Fl2440.Lib.Run
import Fl2440.Lib.Marked
import Fl2440.Lib.ShiftRegister
import Fl2440.Lib.Memory
import Fl2440.Lib.While
import Fl2440.Lib.SkipWalk
import Fl2440.Lib.CString
import Fl2440.Lib.Heap
import Fl2440.MyBoot.RoundTrip
import Fl2440.MyBoot.WriteLog
import Fl2440.MyBoot.Erase
import Fl2440.MyBoot.Download
import Fl2440.MyBoot.XmodemLine
import Fl2440.Gprs.PppStatus
import Fl2440.Gprs.Readiness
import Fl2440.Gprs.Requests
import Fl2440.Gprs.PowerOff
import Fl2440.Gprs.DataPorts
import Fl2440.Gprs.SendAtcmd
import Fl2440.Tlv.TlvCodec
import Fl2440.Tlv.TlvBurst
import Fl2440.CpLibrary.Kernel
import Fl2440.CpLibrary.CpQueue
import Fl2440.CpLibrary.LinkedQueue
import Fl2440.CpLibrary.CpArray
import Fl2440.CpLibrary.SlotMap
import Fl2440.CpLibrary.CpVector
import Fl2440.CpLibrary.CpString
import Fl2440.CpLibrary.State
import Fl2440.CpLibrary.CpSock
import Fl2440.CpLibrary.Relay
import Fl2440.CpLibrary.CpFds
import Fl2440.CpLibrary.CpNetwork
import Fl2440.CpLibrary.Effects
import Fl2440.CpLibrary.Descriptors
import Fl2440.CpLibrary.Holder
import Fl2440.CpLibrary.CloseOnce
import Fl2440.CpLibrary.EventQueue
import Fl2440.CpLibrary.TaskArray
import Fl2440.CpLibrary.Registry
import Fl2440.CpLibrary.Coherence
import Fl2440.CpLibrary.Registration
import Fl2440.CpLibrary.EpollSet
import Fl2440.CpLibrary.EventCount
import Fl2440.CpLibrary.BackPointer
import Fl2440.CpLibrary.History
import Fl2440.CpLibrary.Accounting
import Fl2440.CpLibrary.ListenSocket
import Fl2440.CpLibrary.Dispatch
import Fl2440.CpLibrary.NoDangling
import Fl2440.CpLibrary.SockContract
import Fl2440.CpLibrary.SweTpdud
import Fl2440.CpLibrary.Isolation
import Fl2440.CpLibrary.Capacity
import Fl2440.Converterd.CvdMain
import Fl2440.Converterd.Coherence
import Fl2440.Converterd.Forwarding
import Fl2440.Driver.PlatButton
import Fl2440.Driver.DevAdc
import Fl2440.Driver.KbdDriver
import Fl2440.Gpsd.NmeaScanf
import Fl2440.Gpsd.NmeaParse
import Fl2440.Gpsd.Walk
import Fl2440.Gpsd.Chunking
import Fl2440.Gpsd.Checksum
import Fl2440.Ini.CpIniparser
import Fl2440.Ini.Lines
import Fl2440.Ini.Errors
import Fl2440.Ini.RoundTrip
import Fl2440.Eeprom.Eeprom
import Fl2440.CpLibrary.SplitString
import Fl2440.Gprs.AtFields
import Fl2440.Gprs.MccMnc
import Fl2440.Gprs.Regist
import Fl2440.CpLibrary.PingTest
import Fl2440.Gprs.ProcNetDev
import Fl2440.Ini.ScanLine
import Fl2440.Ini.OneLine
import Fl2440.Gprs.ApnConf
import Fl2440.Ini.Reparsing
import Fl2440.Gpsd.LineBounds
import Fl2440.Gpsd.Bounds
import Fl2440.MyBoot.EraseRange
import Fl2440.MyBoot.WriteResult
import Fl2440.MyBoot.XmodemBlocks
import Fl2440.Driver.ButtonRead
import Fl2440.Driver.ButtonOpen
import Fl2440.Eeprom.Identity
import Fl2440.Gprs.ComportSend
import Fl2440.Gprs.PortState
import Fl2440.Lib.Ecc
import Fl2440.Yaffs.Controller
import Fl2440.Yaffs.K9f2g08Api
import Fl2440.Yaffs.RoundTrip
import Fl2440.Lib.CharArray
import Fl2440.CpLibrary.CpLogger
import Fl2440.CpLibrary.HexDump
import Fl2440.CpLibrary.CstringDump
import Fl2440.CpLibrary.CpTime
import Fl2440.Lib.PairCode
import Fl2440.Yaffs.YaffsEcc
import Fl2440.Yaffs.PackedTags2
import Fl2440.Yaffs.YaffsK9f2g08
import Fl2440.Lib.Ring
import Fl2440.CpLibrary.CpRingbuf
import Fl2440.Apue.CircBuf
import Fl2440.Lib.Slots
import Fl2440.CpLibrary.CpDictionary
import Fl2440.Lib.PackedWords
import Fl2440.Yaffs.Tnode
import Fl2440.Yaffs.FileTree
import Fl2440.Yaffs.FileChunks
import Fl2440.Yaffs.SoftDelete
import Fl2440.Yaffs.CheckptTnodes
import Fl2440.Yaffs.Checkptrw
import Fl2440.Yaffs.CheckptStream
